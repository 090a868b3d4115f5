import MsgBroker.Analysis.HashChains

/-!
# The hash table is a map

Growing links every item again, one chain of the old array after the other, while the chains that
are still to come stay as they are.
-/

set_option autoImplicit false

namespace MsgBroker.Analysis.HashTable

open Lib Model

variable {I : Type}

/-! ## Growing and inserting -/

section Insert

variable [DecidableEq I]

/-- What links the items `moved` again: the chains of the new array have them besides the items they
had, the keys stay, and no other item changes. -/
structure Moved (moved : I → Prop) (n : ℕ) (chains : ℕ → List I) (items : I → HashItem I)
    (s' : (ℕ → Option I) × (I → HashItem I)) (chains' : ℕ → List I) : Prop where
  linked : Chains s'.2 s'.1 n chains'
  mem : ∀ x, (∃ i, x ∈ chains' i) ↔ moved x ∨ ∃ i, x ∈ chains i
  keys : ∀ x, (s'.2 x).key = (items x).key
  frame : ∀ x, ¬ moved x → s'.2 x = items x

theorem moveChain_spec {n fuel : ℕ} {start : Option I} {l : List I} {b : ℕ → Option I}
    {items : I → HashItem I} {chains : ℕ → List I} (h : Chain (nextOf items) start l)
    (hnew : Chains items b n chains) (hdisj : ∀ x ∈ l, ∀ i, x ∉ chains i)
    (hfuel : l.length < fuel) :
    ∃ s' chains', Hash.moveChain n fuel start (b, items) = some s' ∧
      Moved (· ∈ l) n chains items s' chains' := by
  induction l generalizing start fuel b items chains with
  | nil =>
    cases fuel with
    | zero => cases hfuel
    | succ fuel =>
      have hstart : start = none := h
      subst hstart
      refine ⟨(b, items), chains, rfl, hnew, fun x => ?_, fun _ => rfl, fun _ _ => rfl⟩
      exact (or_iff_right List.not_mem_nil).symm
  | cons it l ih =>
    cases fuel with
    | zero => cases hfuel
    | succ fuel =>
      have hnotMem : it ∉ l := (List.nodup_cons.mp h.nodup).1
      obtain ⟨rfl, hrest⟩ := h
      have hne : ∀ x ∈ l, x ≠ it := by
        rintro x hx rfl
        exact hnotMem hx
      have hlink := hnew.link it
        (r := { items it with next := b (hashIdx (items it).key n) }) rfl
        (hdisj it List.mem_cons_self)
      have hkeep : ∀ r x, x ∈ l → Function.update items it r x = items x :=
        fun r x hx => Function.update_of_ne (hne x hx) r items
      obtain ⟨s', chains', hmove, hmoved⟩ := ih
        (hrest.congr fun x hx => congrArg HashItem.next (hkeep _ x hx)) hlink
        (fun x hx i hi => (mem_link.mp ⟨i, hi⟩).elim (hne x hx)
          fun hold => hold.elim (hdisj x (List.mem_cons_of_mem it hx)))
        (Nat.lt_of_succ_lt_succ hfuel)
      refine ⟨s', chains', hmove, hmoved.linked, fun x => ?_, fun x => ?_, fun x hx => ?_⟩
      · rw [hmoved.mem x, mem_link, List.mem_cons, or_left_comm, or_assoc]
      · rw [hmoved.keys x]
        by_cases hx : x = it
        · subst hx
          rw [Function.update_self]
        · rw [Function.update_of_ne hx]
      · rw [List.mem_cons, not_or] at hx
        rw [hmoved.frame x hx.2, Function.update_of_ne hx.1]

theorem moveChains_spec {n fuel : ℕ} {old : ℕ → Option I} {oldChains : ℕ → List I}
    (hdisj : ∀ i j x, x ∈ oldChains i → x ∈ oldChains j → i = j)
    (hfuel : ∀ i, (oldChains i).length < fuel) {is : List ℕ} (his : is.Nodup)
    {b : ℕ → Option I} {items : I → HashItem I} {chains : ℕ → List I}
    (hold : ∀ i ∈ is, Chain (nextOf items) (old i) (oldChains i))
    (hnew : Chains items b n chains) (hfresh : ∀ i ∈ is, ∀ x ∈ oldChains i, ∀ j, x ∉ chains j) :
    ∃ s' chains', Hash.moveChains n fuel old is (b, items) = some s' ∧
      Moved (fun x => ∃ i ∈ is, x ∈ oldChains i) n chains items s' chains' := by
  induction is generalizing b items chains with
  | nil =>
    refine ⟨(b, items), chains, rfl, hnew, fun x => ?_, fun _ => rfl, fun _ _ => rfl⟩
    refine (or_iff_right ?_).symm
    rintro ⟨i, hi, -⟩
    cases hi
  | cons i is ih =>
    obtain ⟨hi, his⟩ := List.nodup_cons.mp his
    obtain ⟨s₁, chains₁, hmove₁, hmoved₁⟩ := moveChain_spec (hold i List.mem_cons_self) hnew
      (hfresh i List.mem_cons_self) (hfuel i)
    have hother : ∀ j ∈ is, ∀ x ∈ oldChains j, x ∉ oldChains i := by
      intro j hj x hx hxi
      exact hi (hdisj i j x hxi hx ▸ hj)
    have hfresh₁ : ∀ j ∈ is, ∀ x ∈ oldChains j, ∀ k, x ∉ chains₁ k := by
      intro j hj x hx k hk
      rcases (hmoved₁.mem x).mp ⟨k, hk⟩ with hxi | ⟨l, hl⟩
      · exact hother j hj x hx hxi
      · exact hfresh j (List.mem_cons_of_mem i hj) x hx l hl
    obtain ⟨s₂, chains₂, hmove₂, hmoved₂⟩ := ih his
      (fun j hj => (hold j (List.mem_cons_of_mem i hj)).congr fun x hx =>
        congrArg HashItem.next (hmoved₁.frame x (hother j hj x hx)))
      hmoved₁.linked hfresh₁
    refine ⟨s₂, chains₂, ?_, hmoved₂.linked, fun x => ?_, fun x => ?_, fun x hx => ?_⟩
    · simp only [Hash.moveChains, List.foldlM_cons, hmove₁, Option.bind_eq_bind, Option.bind_some]
      exact hmove₂
    · rw [hmoved₂.mem x, hmoved₁.mem x, List.exists_mem_cons_iff, or_left_comm, or_assoc]
    · rw [hmoved₂.keys x, hmoved₁.keys x]
    · rw [List.exists_mem_cons_iff, not_or] at hx
      rw [hmoved₂.frame x hx.2, hmoved₁.frame x hx.1]

variable {self : Hash I} {m : HashMap I} {b : ℕ → Option I} {chains : ℕ → List I}

theorem Holds.grow (h : Holds self m b chains) (hsmall : self.nbuckets ≤ 2 ^ 32) {fuel : ℕ}
    (hfuel : self.count < fuel) :
    ∃ t, self.grow fuel true = some (.ok, t) ∧ self.nbuckets < t.nbuckets ∧
      ∃ b' chains', Holds t m b' chains' := by
  have hpos := h.pos
  have hguard : ¬ sizeMax / 2 / hashPtrSize < self.nbuckets := by
    unfold sizeMax hashPtrSize
    omega
  obtain ⟨n, hn⟩ : ∃ n, n = if self.nbuckets * 2 < 16 then 16 else self.nbuckets * 2 := ⟨_, rfl⟩
  have hlt : self.nbuckets < n := by
    rw [hn]
    split <;> omega
  have hread : (fun i => self.read (.bucket i)) = b := by
    funext i
    rw [Hash.read, h.buckets, Option.bind_some]
  have hempty : Chains self.items (fun _ => none) n fun _ => [] :=
    ⟨fun _ => rfl, fun _ _ hit => absurd hit List.not_mem_nil⟩
  obtain ⟨s', chains', hmove, hmoved⟩ := moveChains_spec
    (fun i j x hi hj => h.linked.unique hi hj)
    (fun i => Nat.lt_of_le_of_lt (h.length_le i) hfuel) (List.nodup_range (n := self.nbuckets))
    (fun i _ => h.linked.chain i) hempty (fun _ _ _ _ _ => List.not_mem_nil)
  have hmem : ∀ x, (∃ i, x ∈ chains' i) ↔ ∃ i, x ∈ chains i := by
    intro x
    rw [hmoved.mem x]
    constructor
    · rintro (⟨i, -, hi⟩ | ⟨i, hi⟩)
      · exact ⟨i, hi⟩
      · cases hi
    · rintro ⟨i, hi⟩
      refine Or.inl ⟨i, List.mem_range.mpr ?_, hi⟩
      rw [← h.linked.home i x hi]
      exact Nat.mod_lt _ hpos
  refine ⟨{ self with buckets := some s'.1, nbuckets := n, items := s'.2 }, ?_, hlt, s'.1, chains',
    rfl, Nat.lt_trans hpos hlt, hmoved.linked, fun k it => ?_, h.count, ?_⟩
  · rw [Hash.grow, if_neg hguard, ← hn, hread]
    simp only [Bool.true_eq_false, if_false, hmove, Option.bind_eq_bind, Option.bind_some,
      Option.pure_def]
  · rw [h.present, hmem, hmoved.keys]
  · exact h.load.trans hlt.le

theorem Holds.link (h : Holds self m b chains) (hroom : self.count < self.nbuckets) {key : UInt32}
    {item : I} (hkey : m.lookup key = none) (hitem : ∀ k, m.lookup k ≠ some item) :
    ∃ b' chains', Holds (self.link key item) (m.insert key item) b' chains' := by
  have hread : self.read (.bucket (hashIdx key self.nbuckets)) =
      b (hashIdx key self.nbuckets) := by
    rw [Hash.read, h.buckets, Option.bind_some]
  have hfree : ∀ i, item ∉ chains i :=
    fun i hi => hitem _ ((h.present _ item).mpr ⟨⟨i, hi⟩, rfl⟩)
  have hlink := h.linked.link item
    (r := ⟨key, self.read (.bucket (hashIdx key self.nbuckets))⟩) hread hfree
  have hcard : (m.insert key item).keys.card = m.keys.card + 1 := by
    have hnotMem : key ∉ m.keys := fun hmem =>
      absurd (Finmap.mem_keys.mp hmem) (Finmap.lookup_eq_none.mp hkey)
    rw [← Finset.card_insert_of_notMem hnotMem]
    congr 1
    ext k
    rw [Finmap.mem_keys, Finmap.mem_insert, Finset.mem_insert, Finmap.mem_keys]
  refine ⟨_, _, ?_, h.pos, hlink, fun k it => ?_, ?_, hroom⟩
  · simp only [Hash.link, Hash.write, h.buckets, Option.map_some]
  · rw [mem_link]
    show _ ↔ _ ∧ (Function.update self.items item _ it).key = k
    by_cases hit : it = item
    · subst hit
      rw [Function.update_self, and_iff_right (Or.inl rfl)]
      by_cases hk : k = key
      · subst hk
        exact iff_of_true (Finmap.lookup_insert m) rfl
      · rw [Finmap.lookup_insert_of_ne m hk]
        exact iff_of_false (hitem k) fun heq => hk heq.symm
    · rw [Function.update_of_ne hit, or_iff_right hit, ← h.present]
      by_cases hk : k = key
      · subst hk
        rw [Finmap.lookup_insert, hkey]
        exact iff_of_false (fun heq => hit (Option.some.inj heq).symm) (Option.some_ne_none it).symm
      · rw [Finmap.lookup_insert_of_ne m hk]
  · rw [hcard, ← h.count]
    rfl

omit [DecidableEq I] in
theorem card_keys_lt {key : UInt32} (hkey : m.lookup key = none) : m.keys.card < 2 ^ 32 := by
  have hnotMem : key ∉ m.keys := fun hmem =>
    absurd (Finmap.mem_keys.mp hmem) (Finmap.lookup_eq_none.mp hkey)
  have hle : (insert key m.keys).card ≤ (Finset.range (2 ^ 32)).card := by
    refine Finset.card_le_card_of_injOn UInt32.toNat (fun k _ => ?_) fun k _ l _ heq => ?_
    · exact Finset.mem_coe.mpr (Finset.mem_range.mpr k.toNat_lt)
    · exact UInt32.toNat_inj.mp heq
  rw [Finset.card_insert_of_notMem hnotMem, Finset.card_range] at hle
  exact hle

theorem Holds.insert (h : Holds self m b chains) {key : UInt32} {item : I}
    (hkey : m.lookup key = none) (hitem : ∀ k, m.lookup k ≠ some item) {fuel : ℕ}
    (hfuel : self.count < fuel) :
    ∃ t, self.insert fuel true key item = some t ∧
      ∃ b' chains', Holds t (m.insert key item) b' chains' := by
  rw [Hash.insert, if_neg h.usable]
  by_cases hfull : self.nbuckets ≤ self.count
  · have hsmall : self.nbuckets ≤ 2 ^ 32 :=
      (hfull.trans_eq h.count).trans (card_keys_lt hkey).le
    obtain ⟨t, hgrow, hlt, b', chains', ht⟩ := h.grow hsmall hfuel
    have hroom : t.count < t.nbuckets := by
      rw [ht.count, ← h.count]
      exact Nat.lt_of_le_of_lt h.load hlt
    refine ⟨t.link key item, ?_, ht.link hroom hkey hitem⟩
    rw [if_pos hfull, hgrow]
    rfl
  · exact ⟨_, if_neg hfull, h.link (Nat.lt_of_not_le hfull) hkey hitem⟩

end Insert

/-! ## Every sequence of calls -/

section Runs

variable [DecidableEq I]

/-- The item is linked once in the chain of the bucket. -/
def LinkedIn (self : Hash I) (i : ℕ) (it : I) : Prop :=
  ∃ l, Chain (nextOf self.items) (self.read (.bucket i)) l ∧ l.count it = 1

omit [DecidableEq I] in
theorem holds_init {n : ℕ} {alloc : Bool} {items : I → HashItem I} {start : Hash I}
    (hinit : Hash.init n alloc items = (.ok, start)) :
    Holds start ∅ (fun _ => none) fun _ => [] := by
  unfold Hash.init at hinit
  split at hinit
  · cases hinit
  next hn =>
  split at hinit
  · cases hinit
  split at hinit
  · cases hinit
  cases hinit
  refine ⟨rfl, Nat.pos_of_ne_zero hn, ⟨fun _ => rfl, nofun⟩, fun k it => ?_, rfl, Nat.zero_le _⟩
  rw [Finmap.lookup_empty]
  refine ⟨nofun, ?_⟩
  rintro ⟨⟨i, hi⟩, -⟩
  cases hi

theorem Holds.step {s : Hash I × HashMap I} {b : ℕ → Option I} {chains : ℕ → List I}
    (h : Holds s.1 s.2 b chains) (start : Hash I) {call : HashCall I} (hok : call.Allowed s) :
    ∃ t, (hashCalls start).step s call = some t ∧ ∃ b' chains', Holds t.1 t.2 b' chains' := by
  cases call with
  | insert key item alloc =>
    obtain ⟨hkey, hitem, rfl⟩ := hok
    obtain ⟨t, ht, hholds⟩ := h.insert hkey hitem (Nat.lt_succ_self s.1.count)
    exact ⟨(t, s.2.insert key item), Option.map_eq_some_iff.mpr ⟨t, ht, rfl⟩, hholds⟩
  | erase key =>
    obtain ⟨t, ht, hholds⟩ := h.erase key (Nat.lt_succ_self s.1.count)
    exact ⟨(t, s.2.erase key), Option.map_eq_some_iff.mpr ⟨t, ht, rfl⟩, hholds⟩

theorem holds_of_reach {n : ℕ} {alloc : Bool} {items : I → HashItem I} {start : Hash I}
    (hinit : Hash.init n alloc items = (.ok, start)) {s : Hash I × HashMap I}
    (h : Reach (hashCalls start) HashCall.Allowed s) : ∃ b chains, Holds s.1 s.2 b chains := by
  refine h.invariant (fun s => ∃ b chains, Holds s.1 s.2 b chains) ⟨_, _, holds_init hinit⟩ ?_
  rintro s call t ⟨b, chains, hholds⟩ hok hstep
  obtain ⟨t', hstep', hholds'⟩ := hholds.step start hok
  cases hstep.symm.trans hstep'
  exact hholds'

theorem Holds.linkedIn_iff {self : Hash I} {m : HashMap I} {b : ℕ → Option I}
    {chains : ℕ → List I} (h : Holds self m b chains) {k : UInt32} {it : I}
    (hit : m.lookup k = some it) (i : ℕ) : LinkedIn self i it ↔ i = hashIdx k self.nbuckets := by
  obtain ⟨⟨j, hj⟩, hkey⟩ := (h.present k it).mp hit
  have hhome : hashIdx k self.nbuckets = j := hkey ▸ h.linked.home j it hj
  have hread : self.read (.bucket i) = b i := by
    rw [Hash.read, h.buckets, Option.bind_some]
  rw [hhome]
  constructor
  · rintro ⟨l, hl, hone⟩
    rw [hread] at hl
    cases hl.unique (h.linked.chain i)
    exact h.linked.unique (List.count_pos_iff.mp (by omega)) hj
  · rintro rfl
    refine ⟨chains i, hread ▸ h.linked.chain i, ?_⟩
    exact List.count_eq_one_of_mem (h.linked.chain i).nodup hj

/-- **The hash table is a map across rehashing.**  From any table that `mb_hash_init` made, after
any insertions of unlinked items under keys that were not present and any removals: a search finds
the item of the map, the count is the number of the map's keys, every item of the map is linked in
the bucket of its key and nowhere else, the count is at most the number of buckets, and the next
call goes through.  SRC: hash.c:20-149 -/
theorem hash_is_map {n : ℕ} {alloc : Bool} {items : I → HashItem I} {start : Hash I}
    (hinit : Hash.init n alloc items = (.ok, start)) {s : Hash I × HashMap I}
    (h : Reach (hashCalls start) HashCall.Allowed s) :
    (∀ k fuel, s.1.count < fuel → s.1.find fuel k = some (s.2.lookup k)) ∧
      s.1.count = s.2.keys.card ∧
      (∀ k it, s.2.lookup k = some it → hashIdx k s.1.nbuckets < s.1.nbuckets ∧
        ∀ i, LinkedIn s.1 i it ↔ i = hashIdx k s.1.nbuckets) ∧
      s.1.count ≤ s.1.nbuckets ∧
      ∀ call : HashCall I, call.Allowed s → ∃ t, (hashCalls start).step s call = some t := by
  obtain ⟨b, chains, hholds⟩ := holds_of_reach hinit h
  refine ⟨fun k fuel hfuel => hholds.find_eq k hfuel, hholds.count, fun k it hit => ⟨?_, ?_⟩,
    hholds.load, fun call hok => ?_⟩
  · exact Nat.mod_lt _ hholds.pos
  · exact hholds.linkedIn_iff hit
  · obtain ⟨t, ht, -⟩ := hholds.step start hok
    exact ⟨t, ht⟩

end Runs

/-- INTERNAL: a table of one bucket. -/
def oneBucket : Hash Bool := (Hash.init 1 true fun _ => ⟨0, none⟩).2

/-- The second item makes a table of one bucket grow to sixteen, and then the first one goes. -/
theorem hash_is_map_growing :
    ∃ s : Hash Bool × HashMap Bool, Reach (hashCalls oneBucket) HashCall.Allowed s ∧
      s.1.nbuckets = 16 ∧ s.1.count = 1 ∧ s.1.find 2 5 = some none ∧
      s.1.find 2 7 = some (some false) := by
  have hrun : ((hashCalls oneBucket).run (hashCalls oneBucket).init
      [.insert 5 true true, .insert 7 false true, .erase 5]).map
      (fun s => (s.1.nbuckets, s.1.count, s.2.lookup 5, s.2.lookup 7)) =
        some (16, 1, none, some false) := by
    decide +kernel
  have hmeets : (hashCalls oneBucket).Meets HashCall.Allowed (hashCalls oneBucket).init
      [.insert 5 true true, .insert 7 false true, .erase 5] := by
    refine ⟨⟨rfl, fun _ => nofun, rfl⟩, fun s hs => ⟨?_, fun _ _ => ⟨trivial, fun _ _ => trivial⟩⟩⟩
    simp only [hashCalls, Option.map_eq_some_iff] at hs
    obtain ⟨t, -, rfl⟩ := hs
    refine ⟨rfl, fun k => ?_, rfl⟩
    by_cases hk : k = 5
    · subst hk
      rw [Finmap.lookup_insert]
      nofun
    · rw [Finmap.lookup_insert_of_ne _ hk]
      nofun
  obtain ⟨s, hreach, heq⟩ := Reach.exists_of_run hmeets hrun
  simp only [Prod.mk.injEq] at heq
  obtain ⟨hnb, hcount, hfive, hseven⟩ := heq
  have hinit : Hash.init 1 true (fun _ : Bool => ⟨0, none⟩) = (.ok, oneBucket) := rfl
  obtain ⟨hfind, -⟩ := hash_is_map hinit hreach
  have hfuel : s.1.count < 2 := by omega
  exact ⟨s, hreach, hnb, hcount, (hfind 5 2 hfuel).trans (congrArg some hfive),
    (hfind 7 2 hfuel).trans (congrArg some hseven)⟩

end MsgBroker.Analysis.HashTable
