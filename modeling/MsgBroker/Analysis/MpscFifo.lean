import MsgBroker.Lib.Pending
import MsgBroker.Model.Mpsc

/-!
# The queue with many producers is first in, first out

`Chained s ps` says that the nodes `ps` are in the queue, from the head to the tail, where a link
that is not stored is owed by a push between its compare-exchange and its store, and that the items
pushed so far are those popped and those in `ps`, in this order.
-/

set_option autoImplicit false

namespace MsgBroker.Analysis.Mpsc

open Lib Model Model.Mpsc
open Function (update update_of_ne update_self)

variable {I T : Type}

/-- Some thread is going to store `b` as the successor of `a`. -/
def Owes (push : Option T → PushPc I) (a b : MpscNode I) : Prop := ∃ t, push t = .link b a

/-- The node that a thread has not made the tail yet. -/
def waiting : PushPc I → Option (MpscNode I)
  | .clear n => some n
  | .loadTail n => some n
  | .exchange n _ => some n
  | _ => none

/-- The node that a thread has cleared and not made the tail yet. -/
def cleared : PushPc I → Option (MpscNode I)
  | .loadTail n => some n
  | .exchange n _ => some n
  | _ => none

theorem waiting_of_cleared {c : PushPc I} {n : MpscNode I} (h : cleared c = some n) :
    waiting c = some n := by
  cases c <;> first | exact h | cases h

theorem pushing_of_waiting {c : PushPc I} {n : MpscNode I} (h : waiting c = some n) :
    c.pushing = some n := by
  cases c <;> first | exact h | cases h

theorem ne_link_of_waiting {c : PushPc I} {n : MpscNode I} (h : waiting c = some n)
    (a b : MpscNode I) : c ≠ .link b a := by
  rintro rfl
  cases h

/-- Who pushes what: no node is pushed by two threads, and only the consumer pushes the stub. -/
structure Owners (s : Mpsc I T) : Prop where
  distinct : ∀ t u n, (s.push t).pushing = some n → (s.push u).pushing = some n → t = u
  producers : ∀ t n, (s.push (some t)).pushing = some n → n ≠ .stub
  consumer : ∀ n, (s.push none).pushing = some n → n = .stub ∧ s.pop = .pushStub

/-- The nodes `ps` are in the queue. -/
structure Chained (s : Mpsc I T) (ps : List (MpscNode I)) : Prop where
  chain : PendingChain s.next (Owes s.push) ps
  head : ps.head? = some s.head
  tail : ps.getLast? = some s.producerTail
  items : s.order = s.popped ++ ps.filterMap MpscNode.item?
  noStub : some .stub ∉ s.results
  outside : ∀ t n, waiting (s.push t) = some n → n ∉ ps
  cleared : ∀ t n, cleared (s.push t) = some n → s.next n = none
  owners : Owners s

/-- What the consumer knows where it is. -/
def Place (s : Mpsc I T) (ps : List (MpscNode I)) (seen : Prop) : Prop :=
  match s.pop with
  | .idle => True
  | .loadNext => True
  | .skipStub next => s.head = .stub ∧ s.next .stub = some next
  | .loadNextAgain => s.head ≠ .stub
  | .loadTail => s.head ≠ .stub ∧ (s.producerTail = s.head ∨ seen)
  | .pushStub => s.head ≠ .stub ∧ (waiting (s.push none) = some .stub ∨ .stub ∈ ps)

/-- The condition that a pop returning `NULL` needs, after the step from `s` to `t`. -/
def Seen (s t : Mpsc I T) : Prop := s.pop ≠ .idle ∧ s.seen ∨ t.Open

/-- A step from `s` to `r` keeps the queue, and returns `NULL` only after the condition was seen. -/
def Advances (s r : Mpsc I T) : Prop :=
  ∃ qs, Chained r qs ∧ Place r qs (Seen s r) ∧ (r.results = s.results ++ [none] → Seen s r)

theorem Advances.of_results {s r : Mpsc I T} (qs : List (MpscNode I)) (hr : Chained r qs)
    (hplace : Place r qs (Seen s r)) (hresults : r.results = s.results) : Advances s r := by
  refine ⟨qs, hr, hplace, fun hnull => ?_⟩
  have hlen := congrArg List.length (hresults.symm.trans hnull)
  rw [List.length_append, List.length_singleton] at hlen
  omega

theorem Owners.mono {s t : Mpsc I T} (hs : Owners s) (hpop : t.pop = s.pop)
    (hpush : ∀ u n, (t.push u).pushing = some n → (s.push u).pushing = some n) : Owners t where
  distinct u v n hu hv := hs.distinct u v n (hpush u n hu) (hpush v n hv)
  producers u n hu := hs.producers u n (hpush _ n hu)
  consumer n hn := by
    rw [hpop]
    exact hs.consumer n (hpush none n hn)

theorem Place.push {s t : Mpsc I T} {ps qs : List (MpscNode I)} {seen seen' : Prop}
    (hs : Place s ps seen) (hpop : t.pop = s.pop) (hhead : t.head = s.head)
    (hnext : s.head = .stub → t.next .stub = s.next .stub ∨ s.next .stub = none)
    (htail : t.producerTail = s.producerTail ∨ seen' ∨ s.pop = .pushStub)
    (hstub : waiting (s.push none) = some .stub →
      waiting (t.push none) = some .stub ∨ .stub ∈ qs)
    (hsub : ps ⊆ qs) (hseen : s.pop ≠ .idle → seen → seen') : Place t qs seen' := by
  unfold Place at hs ⊢
  rw [hpop, hhead]
  cases hp : s.pop with
  | idle => trivial
  | loadNext => trivial
  | skipStub next =>
    rw [hp] at hs
    refine ⟨hs.1, ?_⟩
    rcases hnext hs.1 with heq | hnone
    · rw [heq, hs.2]
    · cases hnone.symm.trans hs.2
  | loadNextAgain =>
    rw [hp] at hs
    exact hs
  | loadTail =>
    rw [hp] at hs
    refine ⟨hs.1, ?_⟩
    rcases htail with heq | hseen' | hpush
    · rw [heq]
      exact hs.2.imp_right (hseen (by rw [hp]; nofun))
    · exact .inr hseen'
    · cases hp.symm.trans hpush
  | pushStub =>
    rw [hp] at hs
    exact ⟨hs.1, hs.2.elim hstub fun hmem => .inr (hsub hmem)⟩

section Updates

variable [DecidableEq T] {push : Option T → PushPc I} {t : Option T} {c : PushPc I}

theorem owes_update (hold : ∀ a b, push t ≠ .link b a) (a b : MpscNode I) :
    Owes (update push t c) a b ↔ Owes push a b ∨ c = .link b a := by
  constructor
  · rintro ⟨u, hu⟩
    by_cases hut : u = t
    · subst hut
      rw [update_self] at hu
      exact .inr hu
    · rw [update_of_ne hut] at hu
      exact .inl ⟨u, hu⟩
  · rintro (⟨u, hu⟩ | hc)
    · refine ⟨u, ?_⟩
      rw [update_of_ne, hu]
      rintro rfl
      exact hold a b hu
    · exact ⟨t, (update_self _ _ _).trans hc⟩

theorem pushing_update (hc : c.pushing = (push t).pushing) (u : Option T) :
    (update push t c u).pushing = (push u).pushing := by
  by_cases hut : u = t
  · subst hut
    rw [update_self, hc]
  · rw [update_of_ne hut]

theorem waiting_update (hc : waiting c = waiting (push t)) (u : Option T) :
    waiting (update push t c u) = waiting (push u) := by
  by_cases hut : u = t
  · subst hut
    rw [update_self, hc]
  · rw [update_of_ne hut]

theorem of_update {P : PushPc I → Prop} {u : Option T} (hu : P (update push t c u))
    (hc : ¬ P c) : u ≠ t ∧ P (push u) := by
  by_cases hut : u = t
  · subst hut
    rw [update_self] at hu
    exact absurd hu hc
  · rw [update_of_ne hut] at hu
    exact ⟨hut, hu⟩

end Updates

section Push

variable [DecidableEq T] {s : Mpsc I T} {ps : List (MpscNode I)} {t : Option T}
  {n prev : MpscNode I}

/-- INTERNAL: **a push begins**, by a producer or by the consumer that goes to push the stub. -/
theorem Chained.start (hs : Chained s ps) (hidle : (s.push t).pushing = none)
    (hfree : ∀ u, (s.push u).pushing ≠ some n) (hout : n ∉ ps) {pop : PopPc I}
    (hwho : t = none ∧ n = .stub ∧ pop = .pushStub ∨ t ≠ none ∧ n ≠ .stub ∧ pop = s.pop) :
    Chained { s.start t n with pop := pop } ps := by
  have hpushing : ∀ u m, (update s.push t (.clear n) u).pushing = some m →
      u = t ∧ m = n ∨ u ≠ t ∧ (s.push u).pushing = some m := by
    intro u m hm
    by_cases hut : u = t
    · subst hut
      rw [update_self] at hm
      exact .inl ⟨rfl, (Option.some.inj hm).symm⟩
    · rw [update_of_ne hut] at hm
      exact .inr ⟨hut, hm⟩
  refine ⟨hs.chain.congr (fun _ _ => rfl) fun a b => ?_, hs.head, hs.tail, hs.items, hs.noStub,
    fun u m hm => ?_, fun u m hm => ?_, fun u v m hu hv => ?_, fun u m hu => ?_, fun m hm => ?_⟩
  · refine (owes_update (fun x y heq => ?_) a b).trans (or_iff_left nofun)
    rw [heq] at hidle
    cases hidle
  · rcases hpushing u m (pushing_of_waiting hm) with ⟨-, rfl⟩ | ⟨hut, -⟩
    · exact hout
    · dsimp only [Mpsc.start] at hm
      rw [update_of_ne hut] at hm
      exact hs.outside u m hm
  · exact hs.cleared u m (of_update (P := fun c => Mpsc.cleared c = some m) hm nofun).2
  · rcases hpushing u m hu with ⟨rfl, rfl⟩ | ⟨-, hu'⟩
    · rcases hpushing v m hv with ⟨rfl, -⟩ | ⟨-, hv'⟩
      · rfl
      · exact absurd hv' (hfree v)
    · rcases hpushing v m hv with ⟨rfl, rfl⟩ | ⟨-, hv'⟩
      · exact absurd hu' (hfree u)
      · exact hs.owners.distinct u v m hu' hv'
  · rcases hpushing (some u) m hu with ⟨ht, rfl⟩ | ⟨-, hu'⟩
    · rcases hwho with ⟨hnone, -⟩ | ⟨-, hne, -⟩
      · cases ht.trans hnone
      · exact hne
    · exact hs.owners.producers u m hu'
  · rcases hwho with ⟨rfl, rfl, rfl⟩ | ⟨ht, -, rfl⟩
    · rcases hpushing none m hm with ⟨-, rfl⟩ | ⟨hne, -⟩
      · exact ⟨rfl, rfl⟩
      · exact absurd rfl hne
    · rcases hpushing none m hm with ⟨heq, -⟩ | ⟨-, hm'⟩
      · exact absurd heq.symm ht
      · exact hs.owners.consumer m hm'

theorem Chained.quiet (hs : Chained s ps) (hplace : Place s ps s.seen)
    (hold : waiting (s.push t) = some n) {c : PushPc I} (hnew : waiting c = some n)
    {next : MpscNode I → Option (MpscNode I)} (hnext : ∀ x ∈ ps, next x = s.next x)
    (hnone : ∀ x, s.next x = none → next x = none)
    (hcleared : Mpsc.cleared c = some n → next n = none) {r : Mpsc I T}
    (hr : r = { s with next := next, push := update s.push t c }) : Advances s r := by
  subst hr
  have hpushing : ∀ u, (update s.push t c u).pushing = (s.push u).pushing :=
    pushing_update ((pushing_of_waiting hnew).trans (pushing_of_waiting hold).symm)
  have hwaiting : ∀ u, waiting (update s.push t c u) = waiting (s.push u) :=
    waiting_update (hnew.trans hold.symm)
  refine .of_results ps ⟨hs.chain.congr hnext fun a b => ?_, hs.head, hs.tail, hs.items, hs.noStub,
    fun u m hm => hs.outside u m ((hwaiting u).symm.trans hm), fun u m hm => ?_,
    hs.owners.mono rfl fun u m hm => (hpushing u).symm.trans hm⟩ ?_ rfl
  · dsimp only
    rw [owes_update (ne_link_of_waiting hold), or_iff_left (ne_link_of_waiting hnew a b)]
  · dsimp only at hm ⊢
    by_cases hut : u = t
    · subst hut
      rw [update_self] at hm
      obtain rfl : m = n := Option.some.inj ((waiting_of_cleared hm).symm.trans hnew)
      exact hcleared hm
    · rw [update_of_ne hut] at hm
      exact hnone m (hs.cleared u m hm)
  · refine hplace.push rfl rfl (fun hhead => .inl (hnext _ ?_)) (.inl rfl)
      (fun hstub => .inl ((hwaiting none).trans hstub)) (List.Subset.refl _)
      fun hpop hseen => .inl ⟨hpop, hseen⟩
    rw [← hhead]
    exact List.mem_of_head? hs.head

theorem Chained.exchange [DecidableEq I] (hs : Chained s ps)
    (hpc : s.push t = .exchange n s.producerTail) :
    Chained { s with producerTail := n, order := s.order ++ n.item?.toList,
                     push := update s.push t (.link n s.producerTail) } (ps ++ [n]) := by
  have hwait : waiting (s.push t) = some n := by rw [hpc]; rfl
  have hclear : Mpsc.cleared (s.push t) = some n := by rw [hpc]; rfl
  have hpush : (s.push t).pushing = some n := by rw [hpc]; rfl
  obtain ⟨l, hps⟩ := List.getLast?_eq_some_iff.mp hs.tail
  have hne : ∀ u ≠ t, ∀ m, (s.push u).pushing = some m → m ≠ n := fun u hu m hm heq =>
    hu (hs.owners.distinct u t n (heq ▸ hm) hpush)
  refine ⟨?_, ?_, ?_, ?_, hs.noStub, fun u m hm => ?_, fun u m hm => ?_, ?_⟩
  · have hchain := hs.chain
    have houtside := hs.outside t n hwait
    rw [hps] at hchain houtside ⊢
    rw [← List.append_cons]
    refine hchain.snoc houtside (hs.cleared t n hclear) fun x y => ?_
    rw [owes_update (ne_link_of_waiting hwait), PushPc.link.injEq]
    exact or_congr_right ⟨fun ⟨hy, hx⟩ => ⟨hx.symm, hy.symm⟩, fun ⟨hx, hy⟩ => ⟨hy.symm, hx.symm⟩⟩
  · rw [List.head?_append, hs.head, Option.some_or]
  · exact List.getLast?_concat
  · show s.order ++ n.item?.toList = s.popped ++ _
    rw [hs.items, List.filterMap_append, List.append_assoc]
    cases n <;> rfl
  · obtain ⟨hut, hm⟩ := of_update (P := fun c => waiting c = some m) hm nofun
    rw [List.mem_append, List.mem_singleton, not_or]
    exact ⟨hs.outside u m hm, hne u hut m (pushing_of_waiting hm)⟩
  · exact hs.cleared u m (of_update (P := fun c => Mpsc.cleared c = some m) hm nofun).2
  · exact hs.owners.mono rfl fun u m hm => by
      rwa [pushing_update (hpush.symm ▸ rfl)] at hm

theorem Chained.link [DecidableEq I] (hs : Chained s ps) (hpc : s.push t = .link n prev) :
    Chained { s with next := update s.next prev (some n),
                     push := update s.push t .idle } ps := by
  have hpush : (s.push t).pushing = some n := by rw [hpc]; rfl
  obtain ⟨-, l₁, l₂, hps⟩ := hs.chain.owed prev n ⟨t, hpc⟩
  refine ⟨hs.chain.store ⟨t, hpc⟩ fun x y => ⟨?_, ?_⟩, hs.head, hs.tail, hs.items, hs.noStub,
    fun u m hm => ?_, fun u m hm => ?_, hs.owners.mono rfl fun u m hm => ?_⟩
  · -- another thread owes the link of another node
    rintro ⟨u, hu⟩
    obtain ⟨hut, hlink⟩ := of_update (P := fun c => c = .link y x) hu nofun
    refine ⟨⟨u, hlink⟩, ?_⟩
    rintro rfl
    obtain ⟨-, k₁, k₂, hps'⟩ := hs.chain.owed x y ⟨u, hlink⟩
    obtain ⟨rfl, -⟩ := List.cons.inj (hs.chain.rest_unique hps hps')
    exact hut (hs.owners.distinct u t n (by rw [hlink]; rfl) hpush)
  · rintro ⟨⟨u, hu⟩, hx⟩
    refine ⟨u, ?_⟩
    dsimp only
    rw [update_of_ne, hu]
    rintro rfl
    rw [hpc, PushPc.link.injEq] at hu
    exact hx hu.2.symm
  · exact hs.outside u m (of_update (P := fun c => waiting c = some m) hm nofun).2
  · have hm' := (of_update (P := fun c => Mpsc.cleared c = some m) hm nofun).2
    dsimp only
    rw [update_of_ne]
    · exact hs.cleared u m hm'
    · rintro rfl
      exact hs.outside u m (waiting_of_cleared hm') (hps ▸ by simp)
  · exact (of_update (P := fun c => c.pushing = some m) hm nofun).2

theorem pushStep_keeps [DecidableEq I] {r : Mpsc I T} {spurious : Bool} (hs : Chained s ps)
    (hplace : Place s ps s.seen) (hstep : s.pushStep t spurious = some r) : Advances s r := by
  have hseen : s.pop ≠ .idle → s.seen → Seen s r := fun hpop hseen => .inl ⟨hpop, hseen⟩
  unfold pushStep at hstep
  cases hpc : s.push t with
  | idle =>
    rw [hpc] at hstep
    cases hstep
  | clear n =>
    rw [hpc] at hstep
    have hwait : waiting (s.push t) = some n := by rw [hpc]; rfl
    refine hs.quiet hplace hwait rfl (fun x hx => ?_) (fun x hx => ?_) (fun _ => ?_)
      (Option.some.inj hstep).symm
    · refine update_of_ne ?_ _ _
      rintro rfl
      exact hs.outside t x hwait hx
    · by_cases hxn : x = n
      · rw [hxn, update_self]
      · rw [update_of_ne hxn, hx]
    · exact update_self _ _ _
  | loadTail n =>
    rw [hpc] at hstep
    have hwait : waiting (s.push t) = some n := by rw [hpc]; rfl
    exact hs.quiet hplace hwait rfl (fun _ _ => rfl) (fun _ => id)
      (fun _ => hs.cleared t n (by rw [hpc]; rfl)) (Option.some.inj hstep).symm
  | exchange n prev =>
    rw [hpc] at hstep
    have hwait : waiting (s.push t) = some n := by rw [hpc]; rfl
    dsimp only at hstep
    split_ifs at hstep with hok
    · obtain ⟨rfl, -⟩ := hok
      cases hstep
      refine .of_results (ps ++ [n]) (hs.exchange hpc) (hplace.push rfl rfl (fun _ => .inl rfl) ?_
        (fun hstub => ?_) (List.subset_append_left _ _) hseen) rfl
      · cases t with
        | none => exact .inr (.inr (hs.owners.consumer n (pushing_of_waiting hwait)).2)
        | some p => exact .inr (.inl (.inr (.inr ⟨p, n, _, update_self _ _ _⟩)))
      · cases t with
        | none =>
          rw [hwait, Option.some.injEq] at hstub
          exact .inr (by simp [hstub])
        | some p => exact .inl hstub
    · exact hs.quiet hplace hwait rfl (fun _ _ => rfl) (fun _ => id)
        (fun _ => hs.cleared t n (by rw [hpc]; rfl)) (Option.some.inj hstep).symm
  | link n prev =>
    rw [hpc] at hstep
    cases hstep
    refine .of_results ps (hs.link hpc) (hplace.push rfl rfl (fun _ => ?_) (.inl rfl)
      (fun hstub => ?_) (List.Subset.refl _) hseen) rfl
    · by_cases hprev : prev = .stub
      · exact .inr (hprev ▸ (hs.chain.owed prev n ⟨t, hpc⟩).1)
      · exact .inl (update_of_ne (Ne.symm hprev) _ _)
    · cases t with
      | none =>
        rw [hpc] at hstub
        cases hstub
      | some p => exact .inl hstub

end Push

section Pop

variable {s : Mpsc I T} {ps : List (MpscNode I)} {n : MpscNode I}

theorem Owners.idle_of_pop (hs : Owners s) (hpop : s.pop ≠ .pushStub) :
    (s.push none).pushing = none :=
  Option.eq_none_iff_forall_ne_some.mpr fun n hn => hpop (hs.consumer n hn).2

theorem Owners.move {t : Mpsc I T} (hs : Owners s) (hidle : (s.push none).pushing = none)
    (hpush : t.push = s.push) : Owners t where
  distinct := hpush ▸ hs.distinct
  producers := hpush ▸ hs.producers
  consumer n hn := by
    rw [hpush, hidle] at hn
    cases hn

theorem Chained.eq_cons (hs : Chained s ps) : ∃ l, ps = s.head :: l :=
  List.head?_eq_some_iff.mp hs.head

theorem Chained.move {t : Mpsc I T} (hs : Chained s ps) (hidle : (s.push none).pushing = none)
    (hnext : t.next = s.next) (htail : t.producerTail = s.producerTail) (hhead : t.head = s.head)
    (hpush : t.push = s.push) (horder : t.order = s.order)
    (hresults : t.results = s.results ∨ t.results = s.results ++ [none]) : Chained t ps where
  chain := hnext ▸ hpush ▸ hs.chain
  head := hhead ▸ hs.head
  tail := htail ▸ hs.tail
  items := by
    have hpopped : t.popped = s.popped := by
      unfold Mpsc.popped
      rcases hresults with heq | heq <;> simp [heq]
    rw [horder, hpopped, hs.items]
  noStub := by
    have hno := hs.noStub
    rcases hresults with heq | heq <;> simp [heq, hno]
  outside := hpush ▸ hs.outside
  cleared := hpush ▸ hnext ▸ hs.cleared
  owners := hs.owners.move hidle hpush

theorem Chained.next_none (hs : Chained s ps) (hidle : (s.push none).pushing = none)
    (hnone : s.next s.head = none) :
    ps = [s.head] ∨ ∃ t item prev, s.push (some t) = .link item prev := by
  obtain ⟨l, rfl⟩ := hs.eq_cons
  rcases hs.chain.next_none hnone with rfl | ⟨b, t, ht⟩
  · exact .inl rfl
  · cases t with
    | none =>
      rw [ht] at hidle
      cases hidle
    | some t => exact .inr ⟨t, b, _, ht⟩

theorem Chained.null (hs : Chained s ps) (hidle : (s.push none).pushing = none)
    (hseen : Seen s (s.answer none)) : Advances s (s.answer none) :=
  ⟨ps, hs.move hidle rfl rfl rfl rfl rfl (.inr rfl), trivial, fun _ => hseen⟩

theorem Chained.take (hs : Chained s ps) (hidle : (s.push none).pushing = none)
    (hstub : s.head ≠ .stub) (hnext : s.next s.head = some n) : Advances s (s.take n) := by
  obtain ⟨l, rfl⟩ := hs.eq_cons
  obtain ⟨l, rfl⟩ := hs.chain.next_some hnext
  obtain ⟨i, hi⟩ : ∃ i, s.head = .item i := by
    cases hhead : s.head with
    | stub => exact absurd hhead hstub
    | item i => exact ⟨i, rfl⟩
  refine ⟨n :: l, ⟨hs.chain.tail hnext, rfl, ?_, ?_, ?_, fun t m hm => ?_, hs.cleared,
    hs.owners.move hidle rfl⟩, trivial, fun hnull => ?_⟩
  · have htail := hs.tail
    rwa [List.getLast?_cons_cons] at htail
  · show s.order = (s.take n).popped ++ _
    rw [hs.items, hi]
    simp [Mpsc.take, Mpsc.answer, Mpsc.popped, hi, MpscNode.item?]
  · have hno := hs.noStub
    simp [Mpsc.take, Mpsc.answer, hi, hno]
  · exact fun hmem => hs.outside t m hm (List.mem_cons_of_mem _ hmem)
  · simp [Mpsc.take, Mpsc.answer] at hnull

theorem Chained.toLoadTail (hs : Chained s ps) (hidle : (s.push none).pushing = none)
    (hstub : s.head ≠ .stub) (hnone : s.next s.head = none) :
    Advances s { s with pop := .loadTail } := by
  refine .of_results ps (hs.move hidle rfl rfl rfl rfl rfl (.inl rfl)) ⟨hstub, ?_⟩ rfl
  rcases hs.next_none hidle hnone with rfl | hopen
  · -- the head is the tail
    exact .inl (Option.some.inj hs.tail).symm
  · exact .inr (.inr (.inr hopen))

theorem Chained.pushStub [DecidableEq T] (hs : Chained s ps)
    (hidle : (s.push none).pushing = none) (hstub : s.head ≠ .stub)
    (htail : s.producerTail = s.head) :
    Advances s { s.start none .stub with pop := .pushStub } := by
  have hone : ps = [s.head] := by
    obtain ⟨l, rfl⟩ := hs.eq_cons
    rcases List.eq_nil_or_concat l with rfl | ⟨k, z, rfl⟩
    · rfl
    · have hlast := hs.tail
      have hnd := hs.chain.nodup
      rw [List.concat_eq_append, ← List.cons_append, List.getLast?_concat, Option.some.injEq,
        htail] at hlast
      rw [hlast] at hnd
      simp at hnd
  refine .of_results ps (hs.start hidle (fun u hu => ?_) ?_ (.inl ⟨rfl, rfl, rfl⟩))
    ⟨hstub, .inl ?_⟩ rfl
  · cases u with
    | none => cases hidle.symm.trans hu
    | some p => exact hs.owners.producers p .stub hu rfl
  · rw [hone, List.mem_singleton]
    exact Ne.symm hstub
  · show waiting (update s.push none (.clear .stub) none) = some .stub
    rw [update_self]
    rfl

theorem Chained.empty (hs : Chained s ps) (hidle : (s.push none).pushing = none)
    (hstub : s.head = .stub) (hnext : s.next s.head = none) : Advances s (s.answer none) := by
  refine hs.null hidle (.inr ?_)
  rcases hs.next_none hidle hnext with rfl | hopen
  · left
    have hitems := hs.items
    rw [hstub, List.filterMap_cons_none rfl, List.filterMap_nil, List.append_nil] at hitems
    simpa [Mpsc.answer, Mpsc.popped] using hitems.symm
  · exact .inr hopen

theorem Chained.cutOff (hs : Chained s ps) (hidle : (s.push none).pushing = none)
    (hstub : s.head ≠ .stub) (hmem : .stub ∈ ps) (hnext : s.next s.head = none) :
    Advances s (s.answer none) := by
  refine hs.null hidle (.inr (.inr ((hs.next_none hidle hnext).resolve_left fun hps => ?_)))
  rw [hps, List.mem_singleton] at hmem
  exact hstub hmem.symm

variable [DecidableEq I]

theorem Chained.skip (hs : Chained s ps) (hidle : (s.push none).pushing = none)
    (hstub : s.head = .stub) (hnext : s.next .stub = some n) :
    Advances s { s with next := update s.next .stub none, head := n,
                        pop := .loadNextAgain } := by
  obtain ⟨l, rfl⟩ := hs.eq_cons
  rw [hstub] at hs
  obtain ⟨l, rfl⟩ := hs.chain.next_some hnext
  have hnot : .stub ∉ n :: l := (List.nodup_cons.mp hs.chain.nodup).1
  have hne : n ≠ .stub := fun heq => hnot (heq ▸ List.mem_cons_self)
  refine .of_results (n :: l) ⟨?_, rfl, ?_, ?_, hs.noStub, fun t m hm => ?_,
    fun t m hm => ?_, hs.owners.move hidle rfl⟩ hne rfl
  · refine (hs.chain.tail hnext).congr (fun x hx => ?_) fun _ _ => Iff.rfl
    refine update_of_ne ?_ _ _
    rintro rfl
    exact hnot hx
  · have htail := hs.tail
    rwa [List.getLast?_cons_cons] at htail
  · exact hs.items
  · exact fun hmem => hs.outside t m hm (List.mem_cons_of_mem _ hmem)
  · dsimp only
    by_cases hm' : m = .stub
    · rw [hm', update_self]
    · rw [update_of_ne hm', hs.cleared t m hm]

/-- INTERNAL: **a step of the pop** keeps the queue, and `NULL` is returned only after the condition
was seen. -/
theorem popStep_keeps [DecidableEq T] {r : Mpsc I T} (hs : Chained s ps)
    (hplace : Place s ps s.seen) (hstep : s.popStep = some r) : Advances s r := by
  unfold Place at hplace
  unfold popStep at hstep
  cases hpop : s.pop with
  | idle =>
    have hidle := hs.owners.idle_of_pop (by rw [hpop]; nofun)
    rw [hpop] at hstep
    cases hstep
    exact .of_results ps (hs.move hidle rfl rfl rfl rfl rfl (.inl rfl)) trivial rfl
  | loadNext =>
    have hidle := hs.owners.idle_of_pop (by rw [hpop]; nofun)
    rw [hpop] at hstep
    dsimp only at hstep
    cases hnext : s.next s.head with
    | none =>
      rw [hnext] at hstep
      dsimp only at hstep
      split_ifs at hstep with hstub
      · cases hstep
        exact hs.empty hidle hstub hnext
      · cases hstep
        exact hs.toLoadTail hidle hstub hnext
    | some n =>
      rw [hnext] at hstep
      dsimp only at hstep
      split_ifs at hstep with hstub
      · cases hstep
        exact .of_results ps (hs.move hidle rfl rfl rfl rfl rfl (.inl rfl))
          ⟨hstub, hstub ▸ hnext⟩ rfl
      · cases hstep
        exact hs.take hidle hstub hnext
  | skipStub n =>
    have hidle := hs.owners.idle_of_pop (by rw [hpop]; nofun)
    rw [hpop] at hstep hplace
    cases hstep
    exact hs.skip hidle hplace.1 hplace.2
  | loadNextAgain =>
    have hidle := hs.owners.idle_of_pop (by rw [hpop]; nofun)
    rw [hpop] at hstep hplace
    dsimp only at hstep
    cases hnext : s.next s.head with
    | none =>
      rw [hnext] at hstep
      cases hstep
      exact hs.toLoadTail hidle hplace hnext
    | some n =>
      rw [hnext] at hstep
      cases hstep
      exact hs.take hidle hplace hnext
  | loadTail =>
    have hidle := hs.owners.idle_of_pop (by rw [hpop]; nofun)
    rw [hpop] at hstep hplace
    dsimp only at hstep
    split_ifs at hstep with htail
    · cases hstep
      exact hs.pushStub hidle hplace.1 htail
    · cases hstep
      exact hs.null hidle (.inl ⟨by rw [hpop]; nofun, hplace.2.resolve_left htail⟩)
  | pushStub =>
    rw [hpop] at hstep hplace
    dsimp only at hstep
    split_ifs at hstep with hpush
    have hidle : (s.push none).pushing = none := by rw [hpush]; rfl
    have hmem : .stub ∈ ps := hplace.2.resolve_left (by rw [hpush]; nofun)
    cases hnext : s.next s.head with
    | none =>
      rw [hnext] at hstep
      cases hstep
      exact hs.cutOff hidle hplace.1 hmem hnext
    | some n =>
      rw [hnext] at hstep
      cases hstep
      exact hs.take hidle hplace.1 hnext

end Pop

section Watch

variable {s : Mpsc I T}

theorem Chained.watch {r : Mpsc I T} {ps : List (MpscNode I)} (hr : Chained r ps) :
    Chained (s.watch r) ps :=
  ⟨hr.chain, hr.head, hr.tail, hr.items, hr.noStub, hr.outside, hr.cleared, hr.owners.distinct,
    hr.owners.producers, hr.owners.consumer⟩

theorem start_keeps [DecidableEq T] {ps : List (MpscNode I)} (hs : Chained s ps)
    (hplace : Place s ps s.seen) {t : T} {item : I} (hidle : s.push (some t) = .idle)
    (hok : MpscStep.Allowed s (.start t item)) :
    Advances s (s.start (some t) (.item item)) := by
  obtain ⟨hfree, hnot⟩ := hok
  have hpushing : (s.push (some t)).pushing = none := by rw [hidle]; rfl
  have hout : .item item ∉ ps := fun hmem => hnot (by
    rw [hs.items, List.drop_left]
    exact List.mem_filterMap.mpr ⟨_, hmem, rfl⟩)
  refine .of_results ps (hs.start hpushing hfree hout (.inr ⟨nofun, nofun, rfl⟩)) ?_ rfl
  refine hplace.push rfl rfl (fun _ => .inl rfl) (.inl rfl) (fun hstub => .inl ?_)
    (List.Subset.refl _) fun hpop hseen => .inl ⟨hpop, hseen⟩
  rw [Mpsc.start]
  exact hstub

end Watch

section Runs

variable [DecidableEq I] [DecidableEq T] {next : MpscNode I → Option (MpscNode I)} {s : Mpsc I T}

theorem step_advances {ps : List (MpscNode I)} (hs : Chained s ps) (hplace : Place s ps s.seen)
    {l : MpscStep I T} {t : Mpsc I T} (hstep : (mpsc T next).step s l = some t)
    (hok : MpscStep.Allowed s l) : ∃ r, t = s.watch r ∧ Advances s r := by
  cases l with
  | start p item =>
    simp only [mpsc] at hstep
    split_ifs at hstep with hidle
    exact ⟨_, (Option.some.inj hstep).symm, start_keeps hs hplace hidle hok⟩
  | push p spurious =>
    simp only [mpsc, Option.map_eq_some_iff] at hstep
    obtain ⟨r, hr, rfl⟩ := hstep
    exact ⟨r, rfl, pushStep_keeps hs hplace hr⟩
  | pop =>
    simp only [mpsc, Option.map_eq_some_iff] at hstep
    obtain ⟨r, hr, rfl⟩ := hstep
    exact ⟨r, rfl, popStep_keeps hs hplace hr⟩

theorem inv_of_reach (h : Reach (mpsc T next) MpscStep.Allowed s) :
    ∃ ps, Chained s ps ∧ Place s ps s.seen := by
  refine h.invariant (fun s => ∃ ps, Chained s ps ∧ Place s ps s.seen) ⟨[.stub], ?_, trivial⟩ ?_
  · refine ⟨.singleton ?_ (fun _ _ ⟨_, ht⟩ => nomatch ht), rfl, rfl, rfl, List.not_mem_nil,
      nofun, nofun, nofun, nofun, nofun⟩
    show update next .stub none .stub = none
    rw [update_self]
  · rintro s l t ⟨ps, hs, hplace⟩ hok hstep
    obtain ⟨r, rfl, qs, hr, hplace', -⟩ := step_advances hs hplace hstep hok
    exact ⟨qs, hr.watch, hplace'⟩

/-- **The queue is first in, first out.**  For any producers and one consumer, in every interleaving
of their accesses to memory: the popped items are the first ones in the order of the
compare-exchanges; the stub is never returned; the items not yet popped are in the queue from the
head on, where a link that is missing is owed by a push; and `NULL` is returned only if at some
instant of that pop every pushed item was popped or a push was between its compare-exchange and its
store.  SRC: queue.c:138-188 -/
theorem mpsc_fifo (h : Reach (mpsc T next) MpscStep.Allowed s) :
    s.popped <+: s.order ∧ some .stub ∉ s.results ∧
      (∃ ps, ps.head? = some s.head ∧ ps.getLast? = some s.producerTail ∧
        PendingChain s.next (Owes s.push) ps ∧
        s.order = s.popped ++ ps.filterMap MpscNode.item?) ∧
      ∀ l t, (mpsc T next).step s l = some t → t.results = s.results ++ [none] → t.seen := by
  obtain ⟨ps, hs, hplace⟩ := inv_of_reach h
  refine ⟨hs.items ▸ List.prefix_append _ _, hs.noStub,
    ⟨ps, hs.head, hs.tail, hs.chain, hs.items⟩, fun l t hstep hnull => ?_⟩
  have hseen : ∀ r, t = s.watch r → Advances s r → t.seen := by
    rintro r rfl ⟨-, -, -, hseen⟩
    exact hseen hnull
  cases l with
  | start p item =>
    -- a push that begins returns nothing, whatever its item is
    simp only [mpsc] at hstep
    split_ifs at hstep
    cases hstep
    have hlen := congrArg List.length hnull
    simp [Mpsc.watch, Mpsc.start] at hlen
  | push p spurious =>
    obtain ⟨r, hr, hadvances⟩ := step_advances hs hplace hstep trivial
    exact hseen r hr hadvances
  | pop =>
    obtain ⟨r, hr, hadvances⟩ := step_advances hs hplace hstep trivial
    exact hseen r hr hadvances

end Runs

/-- INTERNAL: the steps of one push. -/
def pushOf (item : Bool) : List (MpscStep Bool Unit) :=
  .start () item :: List.replicate 4 (.push (some ()) false)

/-- INTERNAL: a push, a pop that also pushes the stub, and the beginning of a second pop. -/
def onePush : List (MpscStep Bool Unit) :=
  pushOf false ++ List.replicate 5 .pop ++ List.replicate 4 (.push none false) ++
    List.replicate 2 .pop

/-- The first pop has returned the item, and the second one returns `NULL`. -/
theorem mpsc_fifo_onePush :
    ∃ s t : Mpsc Bool Unit, Reach (mpsc Unit fun _ => none) MpscStep.Allowed s ∧
      s.popped = [false] ∧ (mpsc Unit fun _ => none).step s .pop = some t ∧
      t.results = s.results ++ [none] ∧ t.seen := by
  have hmeets : (mpsc Unit fun _ => none).Meets MpscStep.Allowed
      (mpsc Unit fun _ => none).init onePush := by
    decide +kernel
  have hrun : ((mpsc Unit fun _ => none).run (mpsc Unit fun _ => none).init onePush).map
      (fun s => (s.results, ((mpsc Unit fun _ => none).step s .pop).map fun t => t.results)) =
        some ([some (.item false)], some [some (.item false), none]) := by
    decide +kernel
  obtain ⟨s, hreach, heq⟩ := Reach.exists_of_run hmeets hrun
  obtain ⟨hresults, hnext⟩ := Prod.mk.inj heq
  obtain ⟨t, ht, hnull⟩ := Option.map_eq_some_iff.mp hnext
  obtain ⟨-, -, -, hseen⟩ := mpsc_fifo hreach
  have hnull' : t.results = s.results ++ [none] := by rw [hnull, hresults]; rfl
  refine ⟨s, t, hreach, ?_, ht, hnull', hseen .pop t ht hnull'⟩
  rw [Mpsc.popped, hresults]
  rfl

/-- INTERNAL: a pop that finds the first item last, and a second push before it goes on. -/
def lateLook : List (MpscStep Bool Unit) :=
  pushOf false ++ List.replicate 4 .pop ++ pushOf true

/-- The pop returns `NULL` although two items are in the queue and no push is under way. -/
theorem pop_null_over_items :
    ∃ s t : Mpsc Bool Unit, Reach (mpsc Unit fun _ => none) MpscStep.Allowed s ∧
      (mpsc Unit fun _ => none).step s .pop = some t ∧ t.results = s.results ++ [none] ∧
      t.popped = [] ∧ t.order = [false, true] ∧ ∀ p, t.push p = .idle := by
  have hmeets : (mpsc Unit fun _ => none).Meets MpscStep.Allowed
      (mpsc Unit fun _ => none).init lateLook := by
    decide +kernel
  have hbefore : ((mpsc Unit fun _ => none).run (mpsc Unit fun _ => none).init lateLook).map
      (fun s => s.results) = some [] := by
    decide +kernel
  have hafter : ((mpsc Unit fun _ => none).run (mpsc Unit fun _ => none).init lateLook).bind
      (fun s => ((mpsc Unit fun _ => none).step s .pop).map fun t =>
        (t.results, t.order, decide (∀ p, t.push p = .idle))) =
        some ([none], [false, true], true) := by
    decide +kernel
  obtain ⟨s, hs, hresults⟩ := Option.map_eq_some_iff.mp hbefore
  rw [hs, Option.bind_some, Option.map_eq_some_iff] at hafter
  obtain ⟨t, ht, heq⟩ := hafter
  simp only [Prod.mk.injEq, decide_eq_true_eq] at heq
  obtain ⟨hnull, horder, hidle⟩ := heq
  refine ⟨s, t, Reach.of_run Reach.init hmeets hs, ht, ?_, ?_, horder, hidle⟩
  · rw [hnull, hresults, List.nil_append]
  · rw [Mpsc.popped, hnull]
    rfl

end MsgBroker.Analysis.Mpsc
