import Mathlib.Data.Finmap
import MsgBroker.Lib.Reach
import MsgBroker.Model.Pipe
import MsgBroker.Model.Slab

/-!
# The hash table

`src/utils/hash.c`: items with a key and a pointer to the next one, linked into the chains of an
array of buckets.
-/

set_option autoImplicit false

namespace MsgBroker.Model

open Lib

/-- `struct mb_hash_item`. -/
structure HashItem (I : Type) where
  key : UInt32
  next : Option I
deriving DecidableEq, Repr

/-- `struct mb_hash`, with the items. -/
structure Hash (I : Type) where
  buckets : Option (ℕ → Option I)
  nbuckets : ℕ
  count : ℕ
  items : I → HashItem I

/-- `mb_hash_fn`.  SRC: hash.c:10-16 -/
def hashFn (key : UInt32) : UInt32 :=
  let key := ((key >>> 16) ^^^ key) * 0x45d9f3b
  let key := ((key >>> 16) ^^^ key) * 0x45d9f3b
  (key >>> 16) ^^^ key

/-- The bucket of a key in a table of `n`.  SRC: hash.c:64, 79, 100, 138 -/
def hashIdx (key : UInt32) (n : ℕ) : ℕ := (hashFn key).toNat % n

/-- `sizeof (struct mb_hash_item *)`. -/
def hashPtrSize : ℕ := 8

/-- Where a pointer to an item is stored: in a bucket, or in an item. -/
inductive HashSlot (I : Type) where
  | bucket (i : ℕ)
  | next (it : I)
deriving DecidableEq, Repr

namespace Hash

variable {I : Type}

/-- `mb_hash_init`; `alloc` is whether `mb_alloc` succeeds.  SRC: hash.c:20-39 -/
def init (nbuckets : ℕ) (alloc : Bool) (items : I → HashItem I) : Rc × Hash I :=
  if nbuckets = 0 then (.err .EINVAL, ⟨none, 0, 0, items⟩)
  else if sizeMax / hashPtrSize < nbuckets then (.err .ENOMEM, ⟨none, 0, 0, items⟩)
  else if alloc = false then (.err .ENOMEM, ⟨none, 0, 0, items⟩)
  else (.ok, ⟨some fun _ => none, nbuckets, 0, items⟩)

/-- `*pp`. -/
def read (self : Hash I) : HashSlot I → Option I
  | .bucket i => self.buckets.bind fun b => b i
  | .next it => (self.items it).next

/-- The loop of `mb_hash_find`.  SRC: hash.c:101-106 -/
def findLoop (self : Hash I) (key : UInt32) : ℕ → Option I → Option (Option I)
  | 0, _ => none
  | _ + 1, none => some none
  | fuel + 1, some it =>
    if (self.items it).key = key then some (some it)
    else self.findLoop key fuel (self.items it).next

/-- `mb_hash_find`.  SRC: hash.c:92-107 -/
def find (fuel : ℕ) (key : UInt32) (self : Hash I) : Option (Option I) :=
  if self.buckets.isNone ∨ self.nbuckets = 0 then some none
  else self.findLoop key fuel (self.read (.bucket (hashIdx key self.nbuckets)))

variable [DecidableEq I]

/-- `*pp = v`. -/
def write (self : Hash I) (pp : HashSlot I) (v : Option I) : Hash I :=
  match pp with
  | .bucket i => { self with buckets := self.buckets.map fun b => Function.update b i v }
  | .next it =>
    { self with items := Function.update self.items it { self.items it with next := v } }

/-- The loop of `mb_hash_erase`.  SRC: hash.c:81-88 -/
def eraseLoop (key : UInt32) : ℕ → HashSlot I → Hash I → Option (Hash I)
  | 0, _, _ => none
  | fuel + 1, pp, self =>
    match self.read pp with
    | none => some self
    | some it =>
      if (self.items it).key = key then
        let self := self.write pp (self.items it).next
        some { self with count := self.count - 1 }
      else eraseLoop key fuel (.next it) self

/-- `mb_hash_erase`.  SRC: hash.c:71-90 -/
def erase (fuel : ℕ) (key : UInt32) (self : Hash I) : Option (Hash I) :=
  if self.buckets.isNone ∨ self.nbuckets = 0 then some self
  else eraseLoop key fuel (.bucket (hashIdx key self.nbuckets)) self

/-- The inner loop of `mb_hash_grow` over the chain of one old bucket.  SRC: hash.c:136-143 -/
def moveChain (newNb : ℕ) :
    ℕ → Option I → (ℕ → Option I) × (I → HashItem I) →
      Option ((ℕ → Option I) × (I → HashItem I))
  | 0, _, _ => none
  | _ + 1, none, s => some s
  | fuel + 1, some it, (newBuckets, items) =>
    let next := (items it).next
    let idx := hashIdx (items it).key newNb
    let items := Function.update items it { items it with next := newBuckets idx }
    moveChain newNb fuel next (Function.update newBuckets idx (some it), items)

/-- The outer loop of `mb_hash_grow`.  SRC: hash.c:134-144 -/
def moveChains (newNb fuel : ℕ) (old : ℕ → Option I) (is : List ℕ)
    (s : (ℕ → Option I) × (I → HashItem I)) : Option ((ℕ → Option I) × (I → HashItem I)) :=
  is.foldlM (fun s i => moveChain newNb fuel (old i) s) s

/-- `mb_hash_grow`.  SRC: hash.c:114-149 -/
def grow (fuel : ℕ) (alloc : Bool) (self : Hash I) : Option (Rc × Hash I) :=
  if sizeMax / 2 / hashPtrSize < self.nbuckets then some (.err .ENOMEM, self)
  else
    let newNb := if self.nbuckets * 2 < 16 then 16 else self.nbuckets * 2
    if alloc = false then some (.err .ENOMEM, self)
    else do
      let (newBuckets, items) ← moveChains newNb fuel (fun i => self.read (.bucket i))
        (List.range self.nbuckets) (fun _ => none, self.items)
      return (.ok, { self with buckets := some newBuckets, nbuckets := newNb, items := items })

/-- `mb_hash_insert` after the table has grown where it had to.  SRC: hash.c:64-68 -/
def link (key : UInt32) (item : I) (self : Hash I) : Hash I :=
  let idx := hashIdx key self.nbuckets
  let self :=
    { self with items := Function.update self.items item ⟨key, self.read (.bucket idx)⟩ }
  let self := self.write (.bucket idx) (some item)
  { self with count := self.count + 1 }

/-- `mb_hash_insert`.  SRC: hash.c:49-69 -/
def insert (fuel : ℕ) (alloc : Bool) (key : UInt32) (item : I) (self : Hash I) :
    Option (Hash I) :=
  if self.buckets.isNone ∨ self.nbuckets = 0 then some self
  else if self.nbuckets ≤ self.count then do
    match ← self.grow fuel alloc with
    | (.ok, self) => return self.link key item
    | (.err _, self) => return self
  else some (self.link key item)

end Hash

/-- The calls that change the table. -/
inductive HashCall (I : Type) where
  | insert (key : UInt32) (item : I) (alloc : Bool)
  | erase (key : UInt32)
deriving DecidableEq, Repr

/-- The map of the present keys to the items inserted under them. -/
abbrev HashMap (I : Type) := Finmap fun _ : UInt32 => I

/-- Any calls on a table, together with the map that it stands for.  A loop may visit all the items
that are counted, and one more round ends it. -/
def hashCalls {I : Type} [DecidableEq I] (start : Hash I) : System (Hash I × HashMap I) (HashCall I)
    where
  init := (start, ∅)
  step s
    | .insert key item alloc =>
      (s.1.insert (s.1.count + 1) alloc key item).map fun t => (t, s.2.insert key item)
    | .erase key => (s.1.erase (s.1.count + 1) key).map fun t => (t, s.2.erase key)

/-- A new item is not linked and its key is not present; the allocation of a larger table
succeeds. -/
def HashCall.Allowed {I : Type} (s : Hash I × HashMap I) : HashCall I → Prop
  | .insert key item alloc => s.2.lookup key = none ∧ (∀ k, s.2.lookup k ≠ some item) ∧ alloc = true
  | .erase _ => True

end MsgBroker.Model
