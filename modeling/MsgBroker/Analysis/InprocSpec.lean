import MsgBroker.Model.InprocRegistry

/-!
# What binds and connects do to the inproc registry

A call claims a free address, takes an address over from a connector, joins its socket with the
owner of the address by a pair of pipes, or fails and changes nothing (`Moves`).
-/

set_option autoImplicit false

namespace MsgBroker.Analysis.InprocSpec

open Lib Model Model.InprocRegistry

variable {S A : Type}

/-- The pipes at `i` and `j` are the two ends of a connection, and both are in use. -/
structure PairAt (r : InprocRegistry S A) (i j : ℕ) (x y : Sinproc S) : Prop where
  near : r.sinprocs[i]? = some x
  far : r.sinprocs[j]? = some y
  nearPeer : x.peer = some j
  farPeer : y.peer = some i
  nearActive : x.state = .active
  farActive : y.state = .active

/-- The two sockets are joined by a live pair of pipes. -/
def Joined (r : InprocRegistry S A) (a b : S) : Prop :=
  ∃ i j x y, PairAt r i j x y ∧ x.sock = a ∧ y.sock = b

variable {r r' : InprocRegistry S A} {a b : S}

theorem PairAt.symm {i j : ℕ} {x y : Sinproc S} (h : PairAt r i j x y) :
    PairAt r j i y x :=
  ⟨h.far, h.near, h.farPeer, h.nearPeer, h.farActive, h.nearActive⟩

theorem PairAt.append {i j : ℕ} {x y : Sinproc S}
    (h : PairAt r i j x y) {new : List (Sinproc S)} (hr : r'.sinprocs = r.sinprocs ++ new) :
    PairAt r' i j x y := by
  have hold : ∀ {k : ℕ} {z : Sinproc S}, r.sinprocs[k]? = some z → r'.sinprocs[k]? = some z := by
    intro k z hz
    rw [hr, List.getElem?_append_left (List.getElem?_eq_some_iff.mp hz).1]
    exact hz
  exact ⟨hold h.near, hold h.far, h.nearPeer, h.farPeer, h.nearActive, h.farActive⟩

theorem Joined.append (h : Joined r a b)
    {new : List (Sinproc S)} (hr : r'.sinprocs = r.sinprocs ++ new) : Joined r' a b := by
  obtain ⟨i, j, x, y, h, hx, hy⟩ := h
  exact ⟨i, j, x, y, h.append hr, hx, hy⟩

theorem joined_congr (hr : r'.sinprocs = r.sinprocs) (c d : S) :
    Joined r' c d ↔ Joined r c d := by
  constructor
  · exact fun h => h.append (hr.symm.trans (List.append_nil _).symm)
  · exact fun h => h.append (hr.trans (List.append_nil _).symm)

/-- The two pipes that a connect makes at the end of the list. -/
def wire (i : ℕ) (a b : S) : List (Sinproc S) := [⟨a, some (i + 1), .active⟩, ⟨b, some i, .active⟩]

theorem pairAt_wire {l : List (Sinproc S)}
    (hr : r.sinprocs = l ++ wire l.length a b) :
    PairAt r l.length (l.length + 1) ⟨a, some (l.length + 1), .active⟩
      ⟨b, some l.length, .active⟩ := by
  refine ⟨?_, ?_, rfl, rfl, rfl, rfl⟩
  · rw [hr, List.getElem?_append_right (Nat.le_refl _), Nat.sub_self]
    rfl
  · rw [hr, List.getElem?_append_right (Nat.le_add_right _ 1), Nat.add_sub_cancel_left]
    rfl

/-! ## The registry in order -/

variable {proto : S → Protocol}

/-- An address has at most one owner, owners are in the list of their kind, and every pipe is one
end of a live pair between sockets of peer protocols. -/
structure Wf (proto : S → Protocol) (r : InprocRegistry S A) : Prop where
  bound : ∀ x ∈ r.bound, x.bind = true ∧ x.protocol = proto x.sock
  lazy : ∀ x ∈ r.lazy, x.inLazyList = true ∧ x.protocol = proto x.sock
  owners : ((r.bound ++ r.lazy).map InsItem.addr).Nodup
  live : ∀ i x, r.sinprocs[i]? = some x → ∃ j y, PairAt r i j x y ∧
    (proto x.sock).ispeer (proto y.sock) ∧ (proto y.sock).ispeer (proto x.sock)

theorem wf_init : Wf proto (InprocRegistry.init : InprocRegistry S A) where
  bound x hx := absurd hx List.not_mem_nil
  lazy x hx := absurd hx List.not_mem_nil
  owners := List.nodup_nil
  live i x h := by cases h

theorem Wf.live_of_eq (h : Wf proto r)
    (hr : r'.sinprocs = r.sinprocs) (i : ℕ) (x : Sinproc S) (hx : r'.sinprocs[i]? = some x) :
    ∃ j y, PairAt r' i j x y ∧
      (proto x.sock).ispeer (proto y.sock) ∧ (proto y.sock).ispeer (proto x.sock) := by
  rw [hr] at hx
  obtain ⟨j, y, hpair, hpeer⟩ := h.live i x hx
  exact ⟨j, y, hpair.append (hr.trans (List.append_nil _).symm), hpeer⟩

theorem Wf.live_wire (h : Wf proto r)
    (hr : r'.sinprocs = r.sinprocs ++ wire r.sinprocs.length a b)
    (hab : (proto a).ispeer (proto b)) (hba : (proto b).ispeer (proto a)) (i : ℕ)
    (x : Sinproc S) (hx : r'.sinprocs[i]? = some x) :
    ∃ j y, PairAt r' i j x y ∧
      (proto x.sock).ispeer (proto y.sock) ∧ (proto y.sock).ispeer (proto x.sock) := by
  have hnew := pairAt_wire hr
  rcases Nat.lt_trichotomy i r.sinprocs.length with hlt | rfl | hgt
  · rw [hr, List.getElem?_append_left hlt] at hx
    obtain ⟨j, y, hpair, hpeer⟩ := h.live i x hx
    exact ⟨j, y, hpair.append hr, hpeer⟩
  · rw [hnew.near] at hx
    cases hx
    exact ⟨_, _, hnew, hab, hba⟩
  · have hlen := (List.getElem?_eq_some_iff.mp hx).1
    rw [hr, List.length_append] at hlen
    have hlen' : i < r.sinprocs.length + 2 := hlen
    obtain rfl : i = r.sinprocs.length + 1 := by omega
    rw [hnew.far] at hx
    cases hx
    exact ⟨_, _, hnew.symm, hba, hab⟩

theorem perm_insertBound (r : InprocRegistry S A) (item : InsItem S A) :
    (r.bound ++ [item] ++ r.lazy).Perm (item :: (r.bound ++ r.lazy)) := by
  rw [List.append_assoc]
  exact List.perm_middle

theorem perm_insertLazy (r : InprocRegistry S A) (item : InsItem S A) :
    (r.bound ++ (r.lazy ++ [item])).Perm (item :: (r.bound ++ r.lazy)) := by
  rw [← List.append_assoc]
  exact List.perm_append_singleton item _

/-! ## What a call can do -/

theorem sinproc_connect (i j : ℕ) (add peerAdd : Rc) (a b : S) :
    (add = .ok ∧ peerAdd = .ok ∧ Sinproc.connect i j add peerAdd (.create a) (.create b) =
        (.ok, ⟨a, some j, .active⟩, ⟨b, some i, .active⟩)) ∨
      ∃ e x y, Sinproc.connect i j add peerAdd (.create a) (.create b) = (.err e, x, y) := by
  cases add with
  | err e => exact Or.inr ⟨e, _, _, rfl⟩
  | ok =>
    cases peerAdd with
    | err e => exact Or.inr ⟨e, _, _, rfl⟩
    | ok => exact Or.inl ⟨rfl, rfl, rfl⟩

theorem cinprocConnectCb_cases (item owner : InsItem S A) (ans : EpAnswers)
    (r : InprocRegistry S A) :
    r.cinprocConnectCb item owner ans = (.ok,
        { r with sinprocs := r.sinprocs ++ wire r.sinprocs.length item.sock owner.sock }) ∨
      ∃ e, r.cinprocConnectCb item owner ans = (.err e, r) := by
  unfold cinprocConnectCb
  split
  · exact Or.inr ⟨_, rfl⟩
  split
  · exact Or.inr ⟨_, rfl⟩
  dsimp only
  rcases sinproc_connect r.sinprocs.length (r.sinprocs.length + 1) ans.add ans.peerAdd item.sock
    owner.sock with ⟨-, -, h⟩ | ⟨e, x, y, h⟩
  · rw [h]
    exact Or.inl rfl
  · rw [h]
    exact Or.inr ⟨e, rfl⟩

variable [DecidableEq S] [DecidableEq A]

/-- The item of an endpoint that has bound an address. -/
def boundItem (proto : S → Protocol) (sock : S) (addr : A) : InsItem S A :=
  ⟨sock, addr, true, proto sock, false⟩

/-- The item of an endpoint that owns an address it has connected to. -/
def lazyItem (proto : S → Protocol) (sock : S) (addr : A) : InsItem S A :=
  ⟨sock, addr, false, proto sock, true⟩

/-- What a call of `mb_bind` or `mb_connect` can do. -/
inductive Moves (proto : S → Protocol) (sock : S) (addr : A) (bind : Bool)
    (r : InprocRegistry S A) : Rc → InprocRegistry S A → Prop where
  /-- It fails and changes nothing. -/
  | failed (e : Errno) : Moves proto sock addr bind r (.err e) r
  /-- A bind claims a free address. -/
  | bound : bind = true → r.findOwner addr = none →
      Moves proto sock addr bind r .ok
        { r with bound := r.bound ++ [boundItem proto sock addr] }
  /-- A bind takes an address over from a connector. -/
  | upgraded {owner : InsItem S A} : bind = true → r.findOwner addr = some owner →
      owner.bind = false →
      Moves proto sock addr bind r .ok
        { r with
          bound := r.bound ++ [boundItem proto sock addr]
          lazy := if owner.inLazyList then r.lazy.erase owner else r.lazy }
  /-- A connect claims a free address. -/
  | lazy : bind = false → r.findOwner addr = none →
      Moves proto sock addr bind r .ok
        { r with lazy := r.lazy ++ [lazyItem proto sock addr] }
  /-- A connect is joined with the owner. -/
  | joined {owner : InsItem S A} : bind = false → r.findOwner addr = some owner →
      (proto sock).ispeer owner.protocol → (proto owner.sock).ispeer (proto sock) →
      Moves proto sock addr bind r .ok
        { r with sinprocs := r.sinprocs ++ wire r.sinprocs.length sock owner.sock }

theorem moves_of_createEp (proto : S → Protocol) (sock : S) (addr : A) (bind : Bool)
    (ans : EpAnswers) (r : InprocRegistry S A) :
    Moves proto sock addr bind r (r.createEp proto sock addr bind ans).1
      (r.createEp proto sock addr bind ans).2 := by
  unfold createEp
  split
  · exact .failed _
  split
  · exact .failed _
  cases bind with
  | true =>
    simp only [if_true]
    unfold insBind
    dsimp only
    split
    · next hfree => exact .bound rfl hfree
    · next owner howner =>
      cases hbind : owner.bind with
      | true => exact .failed _
      | false =>
        have hmoves : Moves proto sock addr true r .ok _ := .upgraded rfl howner hbind
        cases hlazy : owner.inLazyList with
        | true => simpa [hlazy, insertBound, boundItem] using hmoves
        | false => simpa [hlazy, insertBound, boundItem] using hmoves
  | false =>
    simp only [Bool.false_eq_true, if_false]
    unfold insConnect
    dsimp only
    split
    · next owner howner =>
      split
      · next hpeer =>
        rcases cinprocConnectCb_cases ⟨sock, addr, false, proto sock, false⟩ owner ans r with
          h | ⟨e, h⟩
        · rw [h]
          exact .joined rfl howner hpeer.1 hpeer.2
        · rw [h]
          exact .failed e
      · exact .failed _
    · next hfree => exact .lazy rfl hfree

/-! ## Every run -/

section Owner

variable {r : InprocRegistry S A} {addr : A} {owner : InsItem S A}

omit [DecidableEq S] in
theorem findOwner_eq : r.findOwner addr = (r.bound ++ r.lazy).find? fun x => x.addr = addr := by
  rw [findOwner, List.find?_append]

omit [DecidableEq S] in
theorem not_mem_of_findOwner (h : r.findOwner addr = none) :
    addr ∉ (r.bound ++ r.lazy).map InsItem.addr := by
  rw [findOwner_eq, List.find?_eq_none] at h
  intro hmem
  obtain ⟨x, hx, hxaddr⟩ := List.mem_map.mp hmem
  exact h x hx (decide_eq_true hxaddr)

omit [DecidableEq S] in
theorem mem_of_findOwner (h : r.findOwner addr = some owner) :
    owner ∈ r.bound ++ r.lazy ∧ owner.addr = addr := by
  rw [findOwner_eq] at h
  exact ⟨List.mem_of_find?_eq_some h, by simpa using List.find?_some h⟩

variable {r' : InprocRegistry S A} {item : InsItem S A}

omit [DecidableEq S] in
theorem Wf.owners_claimed (h : Wf proto r) (hfree : r.findOwner addr = none)
    (haddr : item.addr = addr) (hr : (r'.bound ++ r'.lazy).Perm (item :: (r.bound ++ r.lazy))) :
    ((r'.bound ++ r'.lazy).map InsItem.addr).Nodup := by
  rw [(hr.map InsItem.addr).nodup_iff, List.map_cons, haddr]
  exact List.nodup_cons.mpr ⟨not_mem_of_findOwner hfree, h.owners⟩

omit [DecidableEq S] in
theorem findOwner_claimed (hfree : r.findOwner addr = none) (haddr : item.addr = addr)
    (hr : (r'.bound ++ r'.lazy).Perm (item :: (r.bound ++ r.lazy))) :
    r'.findOwner addr = some item := by
  have hnot := not_mem_of_findOwner hfree
  cases howner : r'.findOwner addr with
  | none =>
    refine absurd (List.mem_map.mpr ⟨item, ?_, haddr⟩) (not_mem_of_findOwner howner)
    exact hr.mem_iff.mpr List.mem_cons_self
  | some owner =>
    obtain ⟨hmem, howned⟩ := mem_of_findOwner howner
    rcases List.mem_cons.mp (hr.mem_iff.mp hmem) with rfl | hold
    · rfl
    · exact absurd (List.mem_map.mpr ⟨owner, hold, howned⟩) hnot

end Owner

theorem Wf.step {sock : S} {addr : A} {bind : Bool} {rc : Rc}
    (h : Wf proto r) (hmoves : Moves proto sock addr bind r rc r') : Wf proto r' := by
  cases hmoves with
  | failed e => exact h
  | bound _ hfree =>
    refine ⟨?_, h.lazy, ?_, h.live_of_eq rfl⟩
    · exact List.forall_mem_append.mpr ⟨h.bound, List.forall_mem_singleton.mpr ⟨rfl, rfl⟩⟩
    · exact h.owners_claimed hfree rfl (perm_insertBound r (boundItem proto sock addr))
  | @upgraded owner _ howner hbind =>
    obtain ⟨hmem, haddr⟩ := mem_of_findOwner howner
    have hlazy : owner ∈ r.lazy := by
      refine (List.mem_append.mp hmem).resolve_left fun hbound => ?_
      rw [(h.bound owner hbound).1] at hbind
      cases hbind
    rw [if_pos (h.lazy owner hlazy).1]
    refine ⟨?_, fun x hx => h.lazy x (List.mem_of_mem_erase hx), ?_, h.live_of_eq rfl⟩
    · exact List.forall_mem_append.mpr ⟨h.bound, List.forall_mem_singleton.mpr ⟨rfl, rfl⟩⟩
    · -- the new owner has the address of the one that is taken out
      have hperm : ((r.bound ++ [boundItem proto sock addr] ++
          r.lazy.erase owner).map InsItem.addr).Perm ((r.bound ++ r.lazy).map InsItem.addr) := by
        simp only [List.map_append, List.map_cons, List.map_nil, List.append_assoc]
        refine List.Perm.append_left _ ?_
        rw [← haddr]
        exact (List.perm_cons_erase hlazy).symm.map InsItem.addr
      rw [hperm.nodup_iff]
      exact h.owners
  | lazy _ hfree =>
    refine ⟨h.bound, ?_, ?_, h.live_of_eq rfl⟩
    · exact List.forall_mem_append.mpr ⟨h.lazy, List.forall_mem_singleton.mpr ⟨rfl, rfl⟩⟩
    · exact h.owners_claimed hfree rfl (perm_insertLazy r (lazyItem proto sock addr))
  | @joined owner _ howner hpeer hpeer' =>
    have hproto : owner.protocol = proto owner.sock := by
      rcases List.mem_append.mp (mem_of_findOwner howner).1 with hin | hin
      · exact (h.bound owner hin).2
      · exact (h.lazy owner hin).2
    rw [hproto] at hpeer
    exact ⟨h.bound, h.lazy, h.owners, h.live_wire rfl hpeer hpeer'⟩

/-- **The registry stays in order.**  However `mb_bind` and `mb_connect` are called and answered on
`inproc://` addresses, an address has at most one owner, which is in the list of its kind, and every
pipe is one end of a live pair that points both ways and joins sockets of peer protocols.
SRC: ins.c:65-137, inproc_cinproc.c:31-121, sinproc.c:76-99 -/
theorem registry_in_order {r : InprocRegistry S A}
    (hr : Reach (inprocCalls proto) (fun _ _ => True) r) : Wf proto r := by
  apply hr.invariant (Wf proto) wf_init
  intro r c r' hwf _ hstep
  obtain rfl : (r.createEp proto c.sock c.addr c.bind c.ans).2 = r' := Option.some.inj hstep
  exact hwf.step (moves_of_createEp proto c.sock c.addr c.bind c.ans r)

/-- A connect before the bind, and one after it. -/
theorem registry_in_order_two_connects : ∃ r : InprocRegistry (Fin 3) String,
    r.sinprocs.length = 2 ∧ Wf (fun _ => .pair) r := by
  have hrun : (inprocCalls fun _ : Fin 3 => Protocol.pair).run .init
      [⟨0, "a", false, .granted⟩, ⟨1, "a", true, .granted⟩, ⟨2, "a", false, .granted⟩] =
      some _ := rfl
  exact ⟨_, rfl, registry_in_order (Reach.of_run_init hrun)⟩

end MsgBroker.Analysis.InprocSpec
