import Mathlib.Logic.Function.Basic
import MsgBroker.Model.Pipe

/-!
# The subscription trie

`src/utils/trie.c`. A node has a child for each byte, a mark that says whether the path to it is a
subscription, and a count of the subscriptions at and below it.
-/

set_option autoImplicit false

namespace MsgBroker.Model

/-- `struct mb_trie_node`. -/
structure TrieNode where
  refcount : UInt32
  subscribed : Bool
  children : UInt8 → Option TrieNode

namespace TrieNode

/-- `mb_trie_node_alloc`.  SRC: trie.c:14-22 -/
def fresh : TrieNode := ⟨0, false, fun _ => none⟩

/-- The child pointer of a byte is set. -/
def setChild (self : TrieNode) (b : UInt8) (child : Option TrieNode) : TrieNode :=
  { self with children := Function.update self.children b child }

/-- The first walk of `mb_trie_add`, which makes the missing nodes of the path; `answers`
tells for each of them whether it can be allocated.  SRC: trie.c:60-68 -/
def ensure : List Bool → List UInt8 → TrieNode → Bool × TrieNode
  | _, [], n => (true, n)
  | answers, b :: bytes, n =>
    match n.children b with
    | some child =>
      let (done, child') := ensure answers bytes child
      (done, n.setChild b (some child'))
    | none =>
      if answers.headD true then
        let (done, child') := ensure answers.tail bytes fresh
        (done, n.setChild b (some child'))
      else (false, n)

/-- The path to a node with the mark.  SRC: trie.c:69 -/
def subscribedAt : List UInt8 → TrieNode → Bool
  | [], n => n.subscribed
  | b :: bytes, n =>
    match n.children b with
    | some child => subscribedAt bytes child
    | none => false

/-- The second walk of `mb_trie_add`, over a path the first one has made.
SRC: trie.c:72-78 -/
def bump : List UInt8 → TrieNode → TrieNode
  | [], n => { n with refcount := n.refcount + 1, subscribed := true }
  | b :: bytes, n =>
    { n with
      refcount := n.refcount + 1
      children := Function.update n.children b ((n.children b).map (bump bytes)) }

/-- `mb_trie_add`, which returns whether the string is new.  SRC: trie.c:51-80 -/
def add (answers : List Bool) (data : List UInt8) (root : TrieNode) :
    Except Errno Bool × TrieNode :=
  match ensure answers data root with
  | (false, root') => (.error .ENOMEM, root')
  | (true, root') =>
    if root'.subscribedAt data then (.ok false, root') else (.ok true, root'.bump data)

/-- One subscription less is counted. -/
def uncount (self : TrieNode) : TrieNode :=
  { self with refcount := if self.refcount > 0 then self.refcount - 1 else self.refcount }

/-- The child may be dropped. -/
def idle (self : TrieNode) : Bool := self.refcount == 0 && !self.subscribed

/-- `mb_trie_rm_rec`, `mb_trie_rm`.  SRC: trie.c:82-120 -/
def rmRec : List UInt8 → TrieNode → Except Errno TrieNode
  | [], n =>
    if !n.subscribed then .error .ENOENT else .ok { n.uncount with subscribed := false }
  | b :: bytes, n =>
    match n.children b with
    | none => .error .ENOENT
    | some child =>
      match rmRec bytes child with
      | .error e => .error e
      | .ok child' => .ok (n.uncount.setChild b (if child'.idle then none else some child'))

/-- `mb_trie_match`.  SRC: trie.c:122-139 -/
def trieMatch : List UInt8 → TrieNode → Bool
  | [], n => n.subscribed
  | b :: bytes, n =>
    if n.subscribed then true
    else
      match n.children b with
      | none => n.subscribed
      | some child => trieMatch bytes child

end TrieNode

end MsgBroker.Model
