import MsgBroker.Analysis.GatherScatter

/-!
# Gather and scatter across two PAIR sockets

The messages end `i` sent are those the other end has received, followed by those in its queue.
-/

set_option autoImplicit false

namespace MsgBroker.Analysis.Cmsg

open Lib Model
open MsgQueueSpec (Holds)
open Function (update update_eq_self update_idem update_of_ne update_self)

variable {s s' : InprocPair} {i j : Bool}

/-! ## The calls of the pipes -/

/-- What end `i` sent was received or is in the queue of the other end. -/
def Carries (s : InprocPair) (i : Bool) : Prop :=
  ∃ passed queued, s.sent i = passed ++ queued ∧ (∀ m ∈ s.sent i, Built m) ∧
    List.Forall₂ Passed passed (s.got (!i)) ∧
    Holds (s.queues (!i)) (queued.map SentMsg.msg)

theorem carries_of_one (h : ∀ j, Carries s j) (hi : Carries s' i)
    (hsent : ∀ j, j ≠ i → s'.sent j = s.sent j)
    (hgot : ∀ j, j ≠ !i → s'.got j = s.got j)
    (hqueue : ∀ j, j ≠ !i → s'.queues j = s.queues j) : ∀ j, Carries s' j := by
  intro j
  by_cases hj : j = i
  · rwa [hj]
  · have hj' : (!j) ≠ !i := fun hcon => hj (Bool.not_inj hcon)
    unfold Carries
    rw [hsent j hj, hgot _ hj', hqueue _ hj']
    exact h j

theorem Carries.syncMaxmem (h : Carries s i) (j : Bool) : Carries (s.syncMaxmem j) i := by
  obtain ⟨passed, queued, hsent, hbuilt, hpassed, hholds⟩ := h
  refine ⟨passed, queued, hsent, hbuilt, hpassed, ?_⟩
  show Holds (update s.queues j _ (!i)) _
  by_cases hj : (!i) = j
  · subst hj
    rw [update_self]
    exact hholds.setMaxmem _
  · rwa [update_of_ne hj]

theorem sinprocSend_spec {l : List (Msg Unit)} (h : Holds (s.queues (!i)) l) (m : Msg Unit)
    (alloc allocNext : Bool) :
    ∃ rc q, s.sinprocSend i m alloc allocNext =
        some (rc, { s with queues := update s.queues (!i) q }) ∧
      (rc = .ok ∧ Holds q (l ++ [m]) ∨ (∃ e, rc = .err e) ∧ Holds q l) := by
  have hself : s = { s with queues := update s.queues (!i) (s.queues (!i)) } := by
    rw [update_eq_self]
  unfold InprocPair.sinprocSend
  split
  · exact ⟨_, s.queues (!i), by rw [← hself], Or.inr ⟨⟨_, rfl⟩, h⟩⟩
  · split
    · exact ⟨_, s.queues (!i), by rw [← hself], Or.inr ⟨⟨_, rfl⟩, h⟩⟩
    · simp only [InprocPair.syncMaxmem, update_self, update_idem]
      rcases (h.setMaxmem (InprocSock.capacity (s.rcvbuf (!i)))).push bodySize alloc allocNext m
        with ⟨q, hpush, hq⟩ | ⟨e, q, hpush, hq⟩
      · rw [hpush]
        exact ⟨.ok, q, rfl, Or.inl ⟨rfl, hq⟩⟩
      · rw [hpush]
        exact ⟨.err e, q, rfl, Or.inr ⟨⟨e, rfl⟩, hq⟩⟩

theorem sinprocRecv_cons {m : Msg Unit} {l : List (Msg Unit)} (h : Holds (s.queues i) (m :: l)) :
    ∃ q, s.sinprocRecv i = some (.ok m, { s with queues := update s.queues i q }) ∧
      Holds q l := by
  have hne : (s.queues i).empty ≠ true := fun hempty => by
    cases h.empty_iff.mp hempty
  obtain ⟨q, hpop, hq⟩ := h.pop_cons bodySize
  refine ⟨q.setMaxmem (InprocSock.capacity (s.rcvbuf i)), ?_, hq.setMaxmem _⟩
  unfold InprocPair.sinprocRecv
  rw [if_neg hne]
  simp only [hpop, bind, Option.bind_some, pure, InprocPair.syncMaxmem, update_self,
    update_idem]

theorem sinprocRecv_nil (h : Holds (s.queues i) []) :
    s.sinprocRecv i = some (.error .EAGAIN, s) := if_pos (h.empty_iff.mpr rfl)

/-! ## The attempts -/

theorem carries_sendmsg (h : ∀ j, Carries s j) {mem : Mem} {env : MsghdrEnv} {mhdr : Msghdr}
    {alloc allocNext : Bool} {r : Except Errno ℤ × InprocPair}
    (hs : s.sendmsg i mem env mhdr alloc allocNext = some r) : ∀ j, Carries r.2 j := by
  unfold InprocPair.sendmsg at hs
  split at hs
  · cases hs
    exact h
  · obtain ⟨⟨result, copied⟩, hb, hs⟩ := Option.bind_eq_some_iff.mp hs
    cases result with
    | error e =>
      cases hs
      exact h
    | ok m =>
      obtain ⟨passed, queued, hsent, hbuilt, hpassed, hholds⟩ := h i
      obtain ⟨rc, q, hsend, hq⟩ := sinprocSend_spec hholds m.msg alloc allocNext
      simp only [hsend, bind, Option.bind_some] at hs
      rcases hq with ⟨rfl, hq⟩ | ⟨⟨e, rfl⟩, hq⟩
      · obtain rfl := Option.some.inj hs
        refine carries_of_one h ⟨passed, queued ++ [⟨mem, mhdr, asInt m.total.toNat, m.msg⟩],
            ?_, ?_, hpassed, ?_⟩
          (fun j hj => update_of_ne hj _ _) (fun _ _ => rfl)
          fun j hj => update_of_ne hj _ _
        · show update s.sent i _ i = _
          rw [update_self, hsent, List.append_assoc]
        · show ∀ m' ∈ update s.sent i _ i, Built m'
          rw [update_self]
          intro m' hm'
          rcases List.mem_append.mp hm' with hold | hnew
          · exact hbuilt m' hold
          · rw [List.mem_singleton.mp hnew]
            refine ⟨env, s.rcvmaxsize i, m.total, copied, hb, ?_⟩
            dsimp only
        · show Holds (update s.queues (!i) q (!i)) _
          rw [update_self, List.map_append]
          exact hq
      · obtain rfl := Option.some.inj hs
        refine carries_of_one h ⟨passed, queued, hsent, hbuilt, hpassed, ?_⟩ (fun _ _ => rfl)
          (fun _ _ => rfl) fun j hj => update_of_ne hj _ _
        show Holds (update s.queues (!i) q (!i)) _
        rwa [update_self]

theorem carries_recvmsg (h : ∀ j, Carries s j) {mem : Mem} {mhdr : Msghdr}
    {r : Except Errno ℤ × InprocPair} (hs : s.recvmsg (!i) mem mhdr = some r) :
    ∀ j, Carries r.2 j := by
  unfold InprocPair.recvmsg at hs
  cases hcheck : InprocPair.checkRecv mhdr with
  | some e =>
    rw [hcheck] at hs
    cases hs
    exact h
  | none =>
    rw [hcheck] at hs
    obtain ⟨passed, queued, hsent, hbuilt, hpassed, hholds⟩ := h i
    cases queued with
    | nil =>
      simp only [sinprocRecv_nil hholds, bind, Option.bind_some] at hs
      obtain rfl := Option.some.inj hs
      exact h
    | cons m queued =>
      obtain ⟨q, hrecv, hq⟩ := sinprocRecv_cons hholds
      simp only [hrecv, bind, Option.bind_some] at hs
      obtain ⟨g, hg, hs⟩ := Option.bind_eq_some_iff.mp hs
      obtain rfl := Option.some.inj hs
      have hmem : g.mem = mem ∧ g.mhdr = mhdr := by
        obtain ⟨mem₁, -, hret⟩ := Option.bind_eq_some_iff.mp hg
        obtain rfl := Option.some.inj hret
        exact ⟨rfl, rfl⟩
      refine carries_of_one h ⟨passed ++ [m], queued, ?_, hbuilt, ?_, ?_⟩ (fun _ _ => rfl)
        (fun j hj => update_of_ne hj _ _) fun j hj => update_of_ne hj _ _
      · rw [List.append_assoc]
        exact hsent
      · show List.Forall₂ Passed (passed ++ [m]) (update s.got (!i) _ (!i))
        rw [update_self]
        refine List.rel_append hpassed (List.Forall₂.cons ⟨?_, ?_⟩ List.Forall₂.nil)
        · rw [hmem.2, hcheck]
        · rw [hmem.1, hmem.2, hg]
      · show Holds (update s.queues (!i) q (!i)) _
        rwa [update_self]

/-! ## Runs -/

variable {rcvbuf rcvmaxsize : Bool → ℤ}

theorem carries_step (h : ∀ j, Carries s j) {op : InprocPairOp}
    (hs : (InprocPair.system rcvbuf rcvmaxsize).step s op = some s') : ∀ j, Carries s' j := by
  cases op with
  | sendmsg i mem env mhdr alloc allocNext =>
    obtain ⟨r, hr, rfl⟩ := Option.map_eq_some_iff.mp hs
    exact carries_sendmsg h hr
  | recvmsg i mem mhdr =>
    obtain ⟨r, hr, rfl⟩ := Option.map_eq_some_iff.mp hs
    rw [← Bool.not_not i] at hr
    exact carries_recvmsg h hr
  | canSend i =>
    cases hs
    exact fun j => (h j).syncMaxmem i
  | setopt i buf max =>
    cases hs
    exact h

theorem carries_of_reach (h : Reach (InprocPair.system rcvbuf rcvmaxsize) (fun _ _ => True) s) :
    ∀ j, Carries s j :=
  h.invariant (fun s => ∀ j, Carries s j)
    (fun _ => ⟨[], [], rfl, List.forall_mem_nil _, List.Forall₂.nil, MsgQueueSpec.holds_init _⟩)
    fun _ _ _ ih _ hs => carries_step ih hs

theorem Forall₂.getElem?_right {α β : Type} {R : α → β → Prop} {as : List α} {bs : List β}
    (h : List.Forall₂ R as bs) {n : ℕ} {b : β} (hb : bs[n]? = some b) :
    ∃ a, as[n]? = some a ∧ R a b := by
  induction h generalizing n with
  | nil => cases hb
  | cons hab _ ih =>
    cases n with
    | zero =>
      cases hb
      exact ⟨_, rfl, hab⟩
    | succ n => exact ih hb

/-- Two PAIR sockets joined by inproc, in every state they reach by any calls with any buffers and
options: the `n`-th successful `mb_recvmsg` of one end gets what the `n`-th successful
`mb_sendmsg` of the other end sent.  If that was `T ≤ INT_MAX` bytes and at most one `SP_HDR`, and
the receive buffers are real, then both returned `T`, the first `min T C` bytes of the receive
buffers are those of the send buffers, the control message is in the control buffer if there is
space for it and `msg_controllen` is 0 if not, and no other byte is written.  With real buffers no
`mb_recvmsg` is undefined.  SRC: global.c:692-949 -/
theorem gather_scatter_round_trip
    (h : Reach (InprocPair.system rcvbuf rcvmaxsize) (fun _ _ => True) s) (i : Bool) :
    (∀ (n : ℕ) g, (s.got (!i))[n]? = some g → ∃ m, (s.sent i)[n]? = some m ∧
      (capacityOf m.mhdr.vecs ≤ intMax → RealBuffers g.mhdr →
        ∀ bytes, SendsSphdr m.mem m.mhdr bytes → Arrives m g bytes)) ∧
    ∀ mem mhdr, RealBuffers mhdr → (s.recvmsg (!i) mem mhdr).isSome = true := by
  obtain ⟨passed, queued, hsent, hbuilt, hpassed, hholds⟩ := carries_of_reach h i
  constructor
  · intro n g hg
    obtain ⟨m, hm, hmg⟩ := Forall₂.getElem?_right hpassed hg
    have hn : n < passed.length := (List.getElem?_eq_some_iff.mp hm).1
    have hm' : (s.sent i)[n]? = some m := by rw [hsent, List.getElem?_append_left hn, hm]
    exact ⟨m, hm', fun hmax hreal bytes hbytes =>
      arrives (hbuilt m (List.mem_of_getElem? hm')) hmg hreal hmax hbytes⟩
  · intro mem mhdr hreal
    unfold InprocPair.recvmsg
    cases hcheck : InprocPair.checkRecv mhdr with
    | some e => rfl
    | none =>
      cases queued with
      | nil =>
        simp only [sinprocRecv_nil hholds, bind, Option.bind_some]
        rfl
      | cons m queued =>
        have hm : m ∈ s.sent i := by
          rw [hsent]
          exact List.mem_append_right _ List.mem_cons_self
        obtain ⟨q, hrecv, -⟩ := sinprocRecv_cons hholds
        obtain ⟨mem₁, hdeliver, -⟩ := deliver_eq hreal hcheck (hbuilt m hm).facts.2.2.1 mem
        simp only [hrecv, hdeliver, bind, Option.bind_some]
        rfl

/-- Two buffers with the bytes 1 to 3, and a control message with the byte 9. -/
def sampleMem : Mem :=
  Mem.store (Mem.store (storeSphdr 100 [9] fun _ => 0) 10 [1, 2]) 20 [3]

/-- The argument of the `mb_sendmsg`. -/
def sampleSend : Msghdr := ⟨some [⟨some 10, 2⟩, ⟨none, 0⟩, ⟨some 20, 1⟩], 3, some 100, 24⟩

/-- The argument of the `mb_recvmsg`, with buffers split in another way. -/
def sampleRecv : Msghdr := ⟨some [⟨some 10, 1⟩, ⟨some 30, 4⟩], 2, some 200, 32⟩

/-- One `mb_sendmsg` at one end and one `mb_recvmsg` at the other. -/
def sampleOps : List InprocPairOp :=
  [.sendmsg false sampleMem ⟨none, fun _ => true⟩ sampleSend true true,
    .recvmsg true (fun _ => 0) sampleRecv]

theorem gather_scatter_sample :
    ∃ s, Reach (InprocPair.system (fun _ => 0) fun _ => -1) (fun _ _ => True) s ∧
      ∃ m g, (s.sent false)[0]? = some m ∧ (s.got true)[0]? = some g ∧
        m.mhdr = sampleSend ∧ g.mhdr = sampleRecv ∧ Arrives m g [9] := by
  let M := InprocPair.system (fun _ => 0) fun _ => -1
  have hsent : (M.run M.init sampleOps).map (fun s => (s.sent false).map fun m =>
      (m.mhdr, cmsghdrAt m.mem 100, m.mem.load (cmsgData 100) 1)) =
        some [(sampleSend, ⟨17, 1, 1⟩, [9])] := by decide +kernel
  have hgot : (M.run M.init sampleOps).map (fun s => (s.got true).map GotMsg.mhdr) =
      some [sampleRecv] := by decide +kernel
  obtain ⟨s, hrun, hsent⟩ := Option.map_eq_some_iff.mp hsent
  rw [hrun] at hgot
  have hreach := Reach.of_run_init hrun
  obtain ⟨m, hm, hmfacts⟩ := List.map_eq_singleton_iff.mp hsent
  obtain ⟨g, hg, hgfacts⟩ := List.map_eq_singleton_iff.mp (Option.some.inj hgot)
  have hm0 : (s.sent false)[0]? = some m := by rw [hm]; rfl
  have hg0 : (s.got true)[0]? = some g := by rw [hg]; rfl
  have hmhdr : m.mhdr = sampleSend := congrArg Prod.fst hmfacts
  have hheader : cmsghdrAt m.mem 100 = ⟨17, 1, 1⟩ := congrArg (fun x => x.2.1) hmfacts
  have hdata : m.mem.load (cmsgData 100) 1 = [9] := congrArg (fun x => x.2.2) hmfacts
  refine ⟨s, hreach, m, g, hm0, hg0, hmhdr, hgfacts, ?_⟩
  obtain ⟨m', hm', harrives⟩ := (gather_scatter_round_trip hreach false).1 0 g hg0
  obtain rfl : m = m' := Option.some.inj (hm0.symm.trans hm')
  have hreal : RealBuffers g.mhdr := by
    rw [hgfacts]
    exact ⟨by decide, by decide, by decide⟩
  refine harrives (by rw [hmhdr]; decide) hreal [9]
    (.one (by decide) ⟨by decide, ?_, ?_, ?_, hdata⟩)
  · rw [hmhdr]; rfl
  · rw [hmhdr]; decide
  · rw [hheader]; decide

end MsgBroker.Analysis.Cmsg
