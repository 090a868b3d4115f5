import MsgBroker.Lib.Chain
import MsgBroker.Model.Hash

/-!
# The chains of the hash table

The items are linked into disjoint chains, each in the chain of the bucket its key belongs to
(`Chains`), and the linked items are those of the map (`Holds`).
-/

set_option autoImplicit false

namespace MsgBroker.Analysis.HashTable

open Lib Model
open Function (exists_update_iff forall_update_iff update update_of_ne update_self)

variable {I : Type}

/-! ## Chains -/

/-- The successor of an item. -/
def nextOf (items : I → HashItem I) (it : I) : Option I := (items it).next

/-- Each bucket has a chain, and each item is in the chain of its key's bucket. -/
structure Chains (items : I → HashItem I) (b : ℕ → Option I) (n : ℕ) (chains : ℕ → List I) :
    Prop where
  chain : ∀ i, Chain (nextOf items) (b i) (chains i)
  home : ∀ i, ∀ it ∈ chains i, hashIdx (items it).key n = i

/-- The table stands for the map. -/
structure Holds (table : Hash I) (m : HashMap I) (b : ℕ → Option I) (chains : ℕ → List I) :
    Prop where
  buckets : table.buckets = some b
  pos : 0 < table.nbuckets
  linked : Chains table.items b table.nbuckets chains
  present : ∀ k it, m.lookup k = some it ↔ (∃ i, it ∈ chains i) ∧ (table.items it).key = k
  count : table.count = m.keys.card
  load : table.count ≤ table.nbuckets

section Chains

variable {items : I → HashItem I} {b : ℕ → Option I} {n : ℕ} {chains : ℕ → List I}

theorem Chains.unique (h : Chains items b n chains) {i j : ℕ} {it : I} (hi : it ∈ chains i)
    (hj : it ∈ chains j) : i = j := (h.home i it hi).symm.trans (h.home j it hj)

variable [DecidableEq I]

theorem Chains.link (h : Chains items b n chains) (it : I) {r : HashItem I}
    (hnext : r.next = b (hashIdx r.key n)) (hit : ∀ i, it ∉ chains i) :
    Chains (update items it r) (update b (hashIdx r.key n) (some it)) n
      (update chains (hashIdx r.key n) (it :: chains (hashIdx r.key n))) := by
  have hsame : ∀ i, ∀ x ∈ chains i, update items it r x = items x := by
    intro i x hx
    have hne : x ≠ it := by
      rintro rfl
      exact hit i hx
    exact update_of_ne hne r items
  have hself : update items it r it = r := update_self it r items
  refine ⟨fun i => ?_, ?_⟩
  · by_cases hi : i = hashIdx r.key n
    · subst hi
      rw [update_self, update_self]
      refine (h.chain _).push ?_ fun x hx => congrArg HashItem.next (hsame _ x hx)
      rw [nextOf, hself, hnext]
    · rw [update_of_ne hi, update_of_ne hi]
      exact (h.chain i).congr fun x hx => congrArg HashItem.next (hsame i x hx)
  · have hold : ∀ i, ∀ x ∈ chains i, hashIdx (update items it r x).key n = i := by
      intro i x hx
      rw [hsame i x hx]
      exact h.home i x hx
    rw [forall_update_iff chains
      (fun i l => ∀ x ∈ l, hashIdx (update items it r x).key n = i)]
    refine ⟨List.forall_mem_cons.mpr ⟨?_, hold _⟩, fun i _ => hold i⟩
    rw [hself]

omit [DecidableEq I] in
theorem mem_link {j : ℕ} {it x : I} :
    (∃ i, x ∈ update chains j (it :: chains j) i) ↔ x = it ∨ ∃ i, x ∈ chains i := by
  rw [exists_update_iff chains (fun _ l => x ∈ l), List.mem_cons, or_assoc]
  refine or_congr_right ⟨?_, fun ⟨i, hi⟩ => ?_⟩
  · rintro (hx | ⟨i, -, hi⟩)
    · exact ⟨j, hx⟩
    · exact ⟨i, hi⟩
  · by_cases hij : i = j
    · exact Or.inl (hij ▸ hi)
    · exact Or.inr ⟨i, hij, hi⟩

end Chains

/-! ## Searching -/

section Find

variable {self : Hash I} {m : HashMap I} {b : ℕ → Option I} {chains : ℕ → List I}

theorem findLoop_eq {key : UInt32} {start : Option I} {l : List I} {fuel : ℕ}
    (h : Chain (nextOf self.items) start l) (hfuel : l.length < fuel) :
    self.findLoop key fuel start = some (l.find? fun it => (self.items it).key = key) := by
  induction l generalizing start fuel with
  | nil =>
    cases fuel with
    | zero => cases hfuel
    | succ fuel =>
      cases h
      rfl
  | cons it l ih =>
    obtain ⟨rfl, hrest⟩ := h
    cases fuel with
    | zero => cases hfuel
    | succ fuel =>
      rw [Hash.findLoop, List.find?_cons]
      by_cases hkey : (self.items it).key = key
      · simp only [hkey, if_true, decide_true]
      · rw [if_neg hkey]
        simp only [hkey, decide_false]
        exact ih hrest (Nat.lt_of_succ_lt_succ hfuel)

theorem Holds.key_inj (h : Holds self m b chains) {i j : ℕ} {x y : I} (hx : x ∈ chains i)
    (hy : y ∈ chains j) (hkey : (self.items x).key = (self.items y).key) : x = y := by
  have hxm := (h.present _ x).mpr ⟨⟨i, hx⟩, rfl⟩
  have hym := (h.present _ y).mpr ⟨⟨j, hy⟩, rfl⟩
  rw [hkey] at hxm
  exact Option.some.inj (hxm.symm.trans hym)

theorem Holds.find?_eq (h : Holds self m b chains) (key : UInt32) :
    (chains (hashIdx key self.nbuckets)).find? (fun it => (self.items it).key = key) =
      m.lookup key := by
  cases hfind : (chains (hashIdx key self.nbuckets)).find? fun it => (self.items it).key = key with
  | none =>
    cases hlookup : m.lookup key with
    | none => rfl
    | some it =>
      obtain ⟨⟨i, hi⟩, hkey⟩ := (h.present key it).mp hlookup
      have hhome : hashIdx key self.nbuckets = i := hkey ▸ h.linked.home i it hi
      rw [hhome] at hfind
      have hnot := List.find?_eq_none.mp hfind it hi
      exact absurd (decide_eq_true hkey) hnot
  | some it =>
    have hkey : (self.items it).key = key := by simpa using List.find?_some hfind
    exact ((h.present key it).mpr ⟨⟨_, List.mem_of_find?_eq_some hfind⟩, hkey⟩).symm

theorem Holds.length_le (h : Holds self m b chains) (i : ℕ) : (chains i).length ≤ self.count := by
  have hnodup : ((chains i).map fun it => (self.items it).key).Nodup :=
    List.Nodup.map_on (fun x hx y hy hkey => h.key_inj hx hy hkey) (h.linked.chain i).nodup
  have hsub : ((chains i).map fun it => (self.items it).key).toFinset ⊆ m.keys := by
    intro k hk
    obtain ⟨it, hit, rfl⟩ := List.mem_map.mp (List.mem_toFinset.mp hk)
    exact Finmap.mem_keys.mpr (Finmap.mem_of_lookup_eq_some
      ((h.present _ it).mpr ⟨⟨i, hit⟩, rfl⟩))
  have hcard := Finset.card_le_card hsub
  rw [List.toFinset_card_of_nodup hnodup, List.length_map] at hcard
  rw [h.count]
  exact hcard

theorem Holds.usable (h : Holds self m b chains) :
    ¬ (self.buckets.isNone = true ∨ self.nbuckets = 0) := by
  rw [h.buckets]
  rintro (hnone | hzero)
  · cases hnone
  · exact absurd hzero (Nat.pos_iff_ne_zero.mp h.pos)

theorem Holds.find_eq (h : Holds self m b chains) (key : UInt32) {fuel : ℕ}
    (hfuel : self.count < fuel) : self.find fuel key = some (m.lookup key) := by
  have hread : self.read (.bucket (hashIdx key self.nbuckets)) =
      b (hashIdx key self.nbuckets) := by
    rw [Hash.read, h.buckets, Option.bind_some]
  rw [Hash.find, if_neg h.usable, hread,
    findLoop_eq (h.linked.chain _) (Nat.lt_of_le_of_lt (h.length_le _) hfuel), h.find?_eq]

end Find

/-! ## Removing -/

section Erase

variable [DecidableEq I] {self : Hash I} {b : ℕ → Option I}

theorem read_write_self (hb : self.buckets = some b) (pp : HashSlot I) (v : Option I) :
    (self.write pp v).read pp = v := by
  cases pp with
  | bucket i => simp only [Hash.write, Hash.read, hb, Option.map_some, Option.bind_some,
      update_self]
  | next it => simp only [Hash.write, Hash.read, update_self]

variable {pp : HashSlot I} {l : List I} {key : UInt32} {m : HashMap I} {chains : ℕ → List I}

theorem read_write_of_ne {q : HashSlot I} (hne : q ≠ pp) (v : Option I) :
    (self.write pp v).read q = self.read q := by
  cases pp with
  | bucket i =>
    cases q with
    | bucket j =>
      have hji : j ≠ i := fun h => hne (h ▸ rfl)
      cases hb : self.buckets with
      | none => simp only [Hash.write, Hash.read, hb, Option.map_none]
      | some b => simp only [Hash.write, Hash.read, hb, Option.map_some, Option.bind_some,
          update_of_ne hji]
    | next x => rfl
  | next it =>
    cases q with
    | bucket j => rfl
    | next x =>
      have hxi : x ≠ it := fun h => hne (h ▸ rfl)
      simp only [Hash.write, Hash.read, update_of_ne hxi]

theorem key_write (pp : HashSlot I) (v : Option I) (x : I) :
    ((self.write pp v).items x).key = (self.items x).key := by
  cases pp with
  | bucket i => rfl
  | next it =>
    by_cases hx : x = it
    · subst hx
      simp only [Hash.write, update_self]
    · simp only [Hash.write, update_of_ne hx]

theorem nbuckets_write (pp : HashSlot I) (v : Option I) :
    (self.write pp v).nbuckets = self.nbuckets := by
  cases pp with
  | bucket i => rfl
  | next it => rfl

theorem count_write (pp : HashSlot I) (v : Option I) : (self.write pp v).count = self.count := by
  cases pp with
  | bucket i => rfl
  | next it => rfl

theorem isSome_write (pp : HashSlot I) (v : Option I) :
    (self.write pp v).buckets.isSome = self.buckets.isSome := by
  cases pp with
  | bucket i => exact Option.isSome_map
  | next it => rfl

/-- What the loop of `mb_hash_erase` does to the chain behind `pp`: the item with the key is taken
out, and no other pointer changes. -/
structure Erased (key : UInt32) (pp : HashSlot I) (l : List I) (s t : Hash I) : Prop where
  chain : Chain (nextOf t.items) (t.read pp) (l.filter fun it => (s.items it).key ≠ key)
  frame : ∀ q, q ≠ pp → (∀ x ∈ l, q ≠ .next x) → t.read q = s.read q
  keys : ∀ x, (t.items x).key = (s.items x).key
  nbuckets : t.nbuckets = s.nbuckets
  buckets : t.buckets.isSome = s.buckets.isSome
  count : t.count = if ∃ it ∈ l, (s.items it).key = key then s.count - 1 else s.count

theorem Erased.here {it : I} (hb : self.buckets = some b)
    (hrest : Chain (nextOf self.items) (self.items it).next l) (hpp : ∀ x ∈ l, pp ≠ .next x)
    (hothers : ∀ x ∈ l, (self.items x).key ≠ (self.items it).key) :
    Erased (self.items it).key pp (it :: l) self
      { self.write pp (self.items it).next with
        count := (self.write pp (self.items it).next).count - 1 } where
  chain := by
    rw [List.filter_cons_of_neg (by simp), List.filter_eq_self.mpr (by simpa using hothers)]
    have hself : (self.write pp (self.items it).next).read pp = (self.items it).next :=
      read_write_self hb pp _
    show Chain (nextOf (self.write pp (self.items it).next).items)
      ((self.write pp (self.items it).next).read pp) l
    rw [hself]
    exact hrest.congr fun x hx => read_write_of_ne (hpp x hx).symm _
  frame q hq _ := read_write_of_ne hq _
  keys := key_write pp _
  nbuckets := nbuckets_write pp _
  buckets := isSome_write pp _
  count := by rw [if_pos ⟨it, List.mem_cons_self, rfl⟩, count_write]

omit [DecidableEq I] in
theorem Erased.later {it : I} {t : Hash I}
    (h : Erased key (.next it) l self t) (hread : self.read pp = some it)
    (hpp : ∀ x ∈ it :: l, pp ≠ .next x) (hkey : (self.items it).key ≠ key) :
    Erased key pp (it :: l) self t where
  chain := by
    have hsame : t.read pp = some it :=
      (h.frame pp (hpp it List.mem_cons_self) fun x hx =>
        hpp x (List.mem_cons_of_mem it hx)).trans hread
    rw [List.filter_cons_of_pos (by simpa using hkey), hsame]
    exact ⟨rfl, h.chain⟩
  frame q _ hq :=
    h.frame q (hq it List.mem_cons_self) fun x hx => hq x (List.mem_cons_of_mem it hx)
  keys := h.keys
  nbuckets := h.nbuckets
  buckets := h.buckets
  count := by
    rw [h.count]
    simp only [List.exists_mem_cons_iff, hkey, false_or]

theorem eraseLoop_spec {fuel : ℕ}
    (hb : self.buckets = some b) (h : Chain (nextOf self.items) (self.read pp) l)
    (hpp : ∀ x ∈ l, pp ≠ .next x)
    (hkeys : ∀ x ∈ l, ∀ y ∈ l, (self.items x).key = (self.items y).key → x = y)
    (hfuel : l.length < fuel) :
    ∃ t, Hash.eraseLoop key fuel pp self = some t ∧ Erased key pp l self t := by
  induction l generalizing pp fuel with
  | nil =>
    cases fuel with
    | zero => cases hfuel
    | succ fuel =>
      have hread : self.read pp = none := h
      refine ⟨self, by simp only [Hash.eraseLoop, hread], hread, fun _ _ _ => rfl, fun _ => rfl,
        rfl, rfl, ?_⟩
      rw [if_neg]
      rintro ⟨x, hx, -⟩
      cases hx
  | cons it l ih =>
    obtain ⟨hread, hrest⟩ := h
    have hchain : Chain (nextOf self.items) (some it) (it :: l) := ⟨rfl, hrest⟩
    have hnotMem : it ∉ l := (List.nodup_cons.mp hchain.nodup).1
    cases fuel with
    | zero => cases hfuel
    | succ fuel =>
      by_cases hkey : (self.items it).key = key
      · subst hkey
        refine ⟨_, ?_, .here hb hrest (fun x hx => hpp x (List.mem_cons_of_mem it hx)) ?_⟩
        · simp only [Hash.eraseLoop, hread, if_true]
        · intro x hx hxkey
          exact hnotMem (hkeys x (List.mem_cons_of_mem it hx) it List.mem_cons_self hxkey ▸ hx)
      · have hnext : Chain (nextOf self.items) (self.read (.next it)) l := hrest
        obtain ⟨t, ht, herased⟩ := ih hnext
          (fun x hx heq => by cases heq; exact hnotMem hx)
          (fun x hx y hy => hkeys x (List.mem_cons_of_mem it hx) y (List.mem_cons_of_mem it hy))
          (Nat.lt_of_succ_lt_succ hfuel)
        refine ⟨t, ?_, herased.later hread hpp hkey⟩
        simp only [Hash.eraseLoop, hread, hkey, if_false]
        exact ht

omit [DecidableEq I] in
theorem Holds.key_mem_iff (h : Holds self m b chains)
    (key : UInt32) :
    (∃ it ∈ chains (hashIdx key self.nbuckets), (self.items it).key = key) ↔ key ∈ m.keys := by
  rw [Finmap.mem_keys, Finmap.mem_iff]
  constructor
  · rintro ⟨it, hit, hkey⟩
    exact ⟨it, (h.present key it).mpr ⟨⟨_, hit⟩, hkey⟩⟩
  · rintro ⟨it, hit⟩
    obtain ⟨⟨i, hi⟩, hkey⟩ := (h.present key it).mp hit
    have hhome : hashIdx key self.nbuckets = i := hkey ▸ h.linked.home i it hi
    exact ⟨it, hhome ▸ hi, hkey⟩

omit [DecidableEq I] in
theorem Holds.erased_chains (h : Holds self m b chains)
    {t : Hash I} {b' : ℕ → Option I}
    (herased : Erased key (.bucket (hashIdx key self.nbuckets))
      (chains (hashIdx key self.nbuckets)) self t) (hb' : t.buckets = some b') :
    Chains t.items b' t.nbuckets fun i =>
      (chains i).filter fun it => (self.items it).key ≠ key where
  chain i := by
    have hread' : t.read (.bucket i) = b' i := by rw [Hash.read, hb', Option.bind_some]
    have hread : self.read (.bucket i) = b i := by rw [Hash.read, h.buckets, Option.bind_some]
    rw [← hread']
    by_cases hi : i = hashIdx key self.nbuckets
    · subst hi
      exact herased.chain
    · have hothers : ∀ x ∈ chains i, (self.items x).key ≠ key := by
        rintro x hx rfl
        exact hi (h.linked.home i x hx).symm
      rw [List.filter_eq_self.mpr (by simpa using hothers),
        herased.frame (.bucket i) (fun heq => hi (by cases heq; rfl)) (fun _ _ => nofun), hread]
      refine (h.linked.chain i).congr fun x hx => ?_
      refine herased.frame (.next x) nofun fun y hy heq => hi ?_
      cases heq
      exact h.linked.unique hx hy
  home i x hx := by
    rw [herased.keys, herased.nbuckets]
    exact h.linked.home i x (List.mem_filter.mp hx).1

theorem Holds.erase (h : Holds self m b chains) (key : UInt32)
    {fuel : ℕ} (hfuel : self.count < fuel) :
    ∃ t, self.erase fuel key = some t ∧ ∃ b' chains', Holds t (m.erase key) b' chains' := by
  have hchain : Chain (nextOf self.items) (self.read (.bucket (hashIdx key self.nbuckets)))
      (chains (hashIdx key self.nbuckets)) := by
    rw [Hash.read, h.buckets, Option.bind_some]
    exact h.linked.chain _
  obtain ⟨t, ht, herased⟩ : ∃ t, Hash.eraseLoop key fuel _ self = some t ∧ Erased key _ _ self t :=
    eraseLoop_spec h.buckets hchain (fun _ _ => nofun) (fun x hx y hy => h.key_inj hx hy)
      (Nat.lt_of_le_of_lt (h.length_le _) hfuel)
  refine ⟨t, by rw [Hash.erase, if_neg h.usable, ht], ?_⟩
  obtain ⟨b', hb'⟩ : ∃ b', t.buckets = some b' := by
    refine Option.isSome_iff_exists.mp ?_
    rw [herased.buckets, h.buckets, Option.isSome_some]
  have hcount : t.count = (m.erase key).keys.card := by
    rw [herased.count, Finmap.keys_erase, Finset.card_erase_eq_ite, ← h.count]
    simp only [h.key_mem_iff]
  refine ⟨b', fun i => (chains i).filter fun it => (self.items it).key ≠ key, hb', ?_,
    h.erased_chains herased hb', ?_, hcount, ?_⟩
  · exact herased.nbuckets.symm ▸ h.pos
  · intro k it
    by_cases hk : k = key
    · subst hk
      rw [Finmap.lookup_erase]
      refine ⟨nofun, ?_⟩
      rintro ⟨⟨i, hi⟩, hkey⟩
      rw [herased.keys] at hkey
      exact absurd hkey (by simpa using (List.mem_filter.mp hi).2)
    · rw [Finmap.lookup_erase_ne hk, h.present, herased.keys]
      refine and_congr_left fun hkey => exists_congr fun i => ?_
      rw [List.mem_filter]
      simp only [hkey, ne_eq, hk, not_false_eq_true, decide_true, and_true]
  · rw [herased.nbuckets, herased.count]
    have hload := h.load
    split <;> omega

end Erase

end MsgBroker.Analysis.HashTable
