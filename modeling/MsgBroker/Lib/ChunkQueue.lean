import Mathlib.Data.List.Basic
import Mathlib.Data.List.ReduceOption
import Mathlib.Tactic.Common

/-!
# A queue in chunks

A first-in first-out queue kept in a chain of chunks of `n` slots.
-/

set_option autoImplicit false

namespace MsgBroker.Lib

variable {n : ℕ} {α : Type}

/-- The chain from the chunk read from to the chunk written to, with the two positions. -/
structure ChunkQueue (n : ℕ) (α : Type) where
  chunks : List (Vector (Option α) n)
  inPos : ℕ
  outPos : ℕ
deriving DecidableEq, Repr

namespace ChunkQueue

/-- The queue without a chunk. -/
def empty : ChunkQueue n α := ⟨[], 0, 0⟩

/-- There is no slot to write to. -/
def Full (q : ChunkQueue n α) : Prop := q.chunks = [] ∨ q.outPos = n

instance (q : ChunkQueue n α) : Decidable q.Full :=
  decidable_of_iff (q.chunks.isEmpty = true ∨ q.outPos = n) (by simp [Full])

/-- Links a chunk at the end of the chain and goes on writing there. -/
def addChunk (chunk : Vector (Option α) n) (q : ChunkQueue n α) : ChunkQueue n α where
  chunks := q.chunks ++ [chunk]
  inPos := if q.chunks.isEmpty then 0 else q.inPos
  outPos := 0

/-- Writes into the next slot of the last chunk; `none` if there is no such slot. -/
def put (a : α) (q : ChunkQueue n α) : Option (ChunkQueue n α) :=
  match q.chunks.getLast? with
  | none => none
  | some chunk =>
    if h : q.outPos < n then
      some { q with
        chunks := q.chunks.dropLast ++ [chunk.set q.outPos (some a) h], outPos := q.outPos + 1 }
    else none

/-- Moves the value out of the next slot of the first chunk, and takes the chunk out of the chain
when it has been read to its end, or up to the writing position; `none` if there is no such
slot. -/
def take (q : ChunkQueue n α) :
    Option (Option α × Option (Vector (Option α) n) × ChunkQueue n α) :=
  match q.chunks with
  | [] => none
  | chunk :: cs =>
    if h : q.inPos < n then
      let chunk' := chunk.set q.inPos none h
      let pos := q.inPos + 1
      if pos = n ∨ (cs.isEmpty ∧ pos = q.outPos) then
        some (chunk[q.inPos], some chunk', ⟨cs, 0, if cs.isEmpty then 0 else q.outPos⟩)
      else some (chunk[q.inPos], none, ⟨chunk' :: cs, pos, q.outPos⟩)
    else none

/-- All slots of the chain, in order. -/
def cells (q : ChunkQueue n α) : List (Option α) := (q.chunks.map Vector.toList).flatten

/-- The number of slots that can still be written. -/
def room (q : ChunkQueue n α) : ℕ := if q.chunks = [] then 0 else n - q.outPos

/-- What stands in the slots between the two positions. -/
def stored (q : ChunkQueue n α) : List α :=
  ((q.cells.drop q.inPos).take (q.cells.length - q.inPos - q.room)).reduceOption

/-- The slots between the two positions hold exactly `l`. -/
structure Stores (q : ChunkQueue n α) (l : List α) : Prop where
  inPos_lt : q.chunks ≠ [] → q.inPos < n
  outPos_le : q.outPos ≤ n
  inPos_nil : q.chunks = [] → q.inPos = 0
  outPos_nil : q.chunks = [] → q.outPos = 0
  cells_eq : ∃ before after, q.cells = before ++ l.map some ++ after ∧
    before.length = q.inPos ∧ after.length = q.room

theorem stores_empty : (empty : ChunkQueue n α).Stores [] where
  inPos_lt h := absurd rfl h
  outPos_le := Nat.zero_le n
  inPos_nil _ := rfl
  outPos_nil _ := rfl
  cells_eq := ⟨[], [], rfl, rfl, rfl⟩

variable {q : ChunkQueue n α} {l : List α}

theorem Stores.stored_eq (h : q.Stores l) : q.stored = l := by
  obtain ⟨before, after, hcells, hbefore, hafter⟩ := h.cells_eq
  have hlen : q.cells.length - q.inPos - q.room = (l.map some).length := by
    rw [hcells, List.length_append, List.length_append, hbefore, hafter]
    omega
  unfold stored
  rw [hlen, hcells, List.append_assoc, ← hbefore, List.drop_left, List.take_left]
  simp [List.reduceOption, List.filterMap_map]

theorem room_of_full (h : q.Full) : q.room = 0 := by
  unfold room
  rcases h with h | h
  · rw [if_pos h]
  · split
    · rfl
    · rw [h, Nat.sub_self]

theorem Stores.addChunk (h : q.Stores l) (hfull : q.Full) (hn : 0 < n)
    (chunk : Vector (Option α) n) : (q.addChunk chunk).Stores l := by
  obtain ⟨before, after, hcells, hbefore, hafter⟩ := h.cells_eq
  have hinPos : (q.addChunk chunk).inPos = q.inPos := by
    show (if q.chunks.isEmpty = true then 0 else q.inPos) = q.inPos
    split
    · next hnil => exact (h.inPos_nil (List.isEmpty_iff.mp hnil)).symm
    · rfl
  have hne : (q.addChunk chunk).chunks ≠ [] := List.append_ne_nil_of_right_ne_nil _ (by simp)
  refine ⟨fun _ => ?_, Nat.zero_le n, fun hnil => absurd hnil hne, fun _ => rfl, ?_⟩
  · rw [hinPos]
    by_cases hnil : q.chunks = []
    · rw [h.inPos_nil hnil]
      exact hn
    · exact h.inPos_lt hnil
  · refine ⟨before, chunk.toList, ?_, hinPos.symm ▸ hbefore, ?_⟩
    · rw [room_of_full hfull, List.length_eq_zero_iff] at hafter
      show ((q.chunks ++ [chunk]).map Vector.toList).flatten = _
      rw [List.map_append, List.flatten_append]
      show q.cells ++ _ = _
      rw [hcells, hafter]
      simp
    · rw [room, if_neg hne]
      exact chunk.length_toList

/-! ## Slots -/

section Slots

variable {xs ys before rest : List (Option α)} {x : Option α}

theorem split_first (h : xs ++ ys = before ++ x :: rest) (hlt : before.length < xs.length) :
    ∃ mid, xs = before ++ x :: mid ∧ mid ++ ys = rest := by
  rcases List.append_eq_append_iff.mp h with ⟨as, rfl, -⟩ | ⟨bs, rfl, hbs⟩
  · rw [List.length_append] at hlt
    omega
  · cases bs with
    | nil =>
      rw [List.append_nil] at hlt
      exact absurd hlt (Nat.lt_irrefl _)
    | cons b bs =>
      rw [List.cons_append, List.cons.injEq] at hbs
      obtain ⟨rfl, rfl⟩ := hbs
      exact ⟨bs, rfl, rfl⟩

theorem split_last (h : xs ++ ys = before ++ x :: rest) (hlt : rest.length < ys.length) :
    ∃ mid, ys = mid ++ x :: rest ∧ xs ++ mid = before := by
  rcases List.append_eq_append_iff.mp h with ⟨as, rfl, has⟩ | ⟨bs, rfl, hbs⟩
  · exact ⟨as, has, rfl⟩
  · have hlen := congrArg List.length hbs
    rw [List.length_cons, List.length_append] at hlen
    have hnil : bs = [] := List.length_eq_zero_iff.mp (by omega)
    rw [hnil, List.nil_append] at hbs
    exact ⟨[], hbs.symm, by rw [hnil, List.append_nil, List.append_nil]⟩

variable {chunk : Vector (Option α) n} {i : ℕ}

theorem getElem_of_toList (h : chunk.toList = before ++ x :: rest) (hi : before.length = i)
    (hlt : i < n) : chunk[i] = x := by
  rw [← Vector.getElem_toList (by simpa using hlt)]
  simp [h, hi]

theorem toList_set_of_toList (h : chunk.toList = before ++ x :: rest) (hi : before.length = i)
    (hlt : i < n) (y : Option α) : (chunk.set i y hlt).toList = before ++ y :: rest := by
  rw [Vector.toList_set, h, ← hi, List.set_append_right _ _ (Nat.le_refl _), Nat.sub_self,
    List.set_cons_zero]

end Slots

/-! ## Writing and reading -/

theorem Stores.put (h : q.Stores l) (hroom : ¬ q.Full) (a : α) :
    ∃ q', q.put a = some q' ∧ q'.Stores (l ++ [a]) := by
  obtain ⟨hne, hpos⟩ := not_or.mp hroom
  have hlt : q.outPos < n := Nat.lt_of_le_of_ne h.outPos_le hpos
  obtain ⟨init, chunk, hchunks⟩ : ∃ init chunk, q.chunks = init ++ [chunk] :=
    ⟨_, _, (List.dropLast_append_getLast hne).symm⟩
  obtain ⟨before, after, hcells, hbefore, hafter⟩ := h.cells_eq
  have hput : q.put a =
      some ⟨init ++ [chunk.set q.outPos (some a) hlt], q.inPos, q.outPos + 1⟩ := by
    unfold ChunkQueue.put
    rw [hchunks, List.getLast?_concat]
    simp only [dif_pos hlt, List.dropLast_concat]
  refine ⟨_, hput, ?_⟩
  have hne' : init ++ [chunk.set q.outPos (some a) hlt] ≠ [] := by simp
  refine ⟨fun _ => h.inPos_lt hne, hlt, fun hnil => absurd hnil hne',
    fun hnil => absurd hnil hne', ?_⟩
  -- the slot written is the first of those after the stored values
  rw [room, if_neg hne] at hafter
  obtain ⟨x, rest, rfl⟩ := List.exists_cons_of_length_pos (l := after) (by omega)
  rw [List.length_cons] at hafter
  have hflat : (init.map Vector.toList).flatten ++ chunk.toList =
      before ++ l.map some ++ x :: rest := by
    rw [← hcells, cells, hchunks]
    simp
  obtain ⟨mid, hchunk, hmid⟩ := split_last hflat (by rw [Vector.length_toList]; omega)
  have hout : mid.length = q.outPos := by
    have hlen := congrArg List.length hchunk
    rw [Vector.length_toList, List.length_append, List.length_cons] at hlen
    omega
  refine ⟨before, rest, ?_, hbefore, ?_⟩
  · show ((init ++ [chunk.set q.outPos (some a) hlt]).map Vector.toList).flatten = _
    rw [List.map_append, List.flatten_append, List.map_singleton, List.flatten_singleton,
      toList_set_of_toList hchunk hout hlt, ← List.append_assoc, hmid]
    simp
  · rw [room, if_neg hne']
    show rest.length = n - (q.outPos + 1)
    omega

theorem Stores.head {a : α} (h : q.Stores (a :: l)) :
    ∃ chunk cs before mid after, q.chunks = chunk :: cs ∧
      chunk.toList = before ++ some a :: mid ∧
      mid ++ (cs.map Vector.toList).flatten = l.map some ++ after ∧
      before.length = q.inPos ∧ after.length = n - q.outPos := by
  obtain ⟨before, after, hcells, hbefore, hafter⟩ := h.cells_eq
  cases hq : q.chunks with
  | nil =>
    rw [cells, hq] at hcells
    simp at hcells
  | cons chunk cs =>
    have hne : q.chunks ≠ [] := by simp [hq]
    have hlt := h.inPos_lt hne
    rw [room, if_neg hne] at hafter
    have hflat : chunk.toList ++ (cs.map Vector.toList).flatten =
        before ++ some a :: (l.map some ++ after) := by
      rw [cells, hq] at hcells
      simpa using hcells
    obtain ⟨mid, hchunk, hrest⟩ := split_first hflat (by simpa [hbefore] using hlt)
    exact ⟨chunk, cs, before, mid, after, rfl, hchunk, hrest, hbefore, hafter⟩

theorem Stores.take {a : α} (h : q.Stores (a :: l)) :
    ∃ chunk q', q.take = some (some a, chunk, q') ∧ q'.Stores l := by
  obtain ⟨chunk, cs, before, mid, after, hchunks, hchunk, hrest, hbefore, hafter⟩ := h.head
  have hlt : q.inPos < n := h.inPos_lt (by simp [hchunks])
  have hle := h.outPos_le
  have hmid : q.inPos + 1 + mid.length = n := by
    have hlen := congrArg List.length hchunk
    rw [Vector.length_toList, List.length_append, List.length_cons, hbefore] at hlen
    omega
  have htake : q.take =
      if q.inPos + 1 = n ∨ (cs.isEmpty = true ∧ q.inPos + 1 = q.outPos) then
        some (some a, some (chunk.set q.inPos none hlt),
          ⟨cs, 0, if cs.isEmpty then 0 else q.outPos⟩)
      else some (some a, none, ⟨chunk.set q.inPos none hlt :: cs, q.inPos + 1, q.outPos⟩) := by
    unfold ChunkQueue.take
    rw [hchunks]
    simp only [dif_pos hlt, getElem_of_toList hchunk hbefore hlt]
  rw [htake]
  split
  · next hend =>
    refine ⟨_, _, rfl, ?_⟩
    have hlen := congrArg List.length hrest
    rw [List.length_append, List.length_append, List.length_map, hafter] at hlen
    cases cs with
    | nil =>
      -- the only chunk has been read up to the writing position
      have hzero : l.length = 0 := by
        rw [List.map_nil, List.flatten_nil, List.length_nil] at hlen
        rcases hend with hn | ⟨-, hn⟩ <;> omega
      rw [List.length_eq_zero_iff.mp hzero]
      exact stores_empty
    | cons chunk' cs =>
      have hn : q.inPos + 1 = n := hend.resolve_right (by simp)
      have hnil : mid = [] := List.length_eq_zero_iff.mp (by omega)
      rw [hnil, List.nil_append] at hrest
      have hpos : 0 < n := by omega
      refine ⟨fun _ => hpos, hle, nofun, nofun, [], after, hrest, rfl, ?_⟩
      rw [room, if_neg (by simp)]
      exact hafter
  · next hmore =>
    obtain ⟨hn, -⟩ := not_or.mp hmore
    refine ⟨_, _, rfl, fun _ => Nat.lt_of_le_of_ne hlt hn, hle, nofun, nofun, ?_⟩
    refine ⟨before ++ [none], after, ?_, by simp [hbefore], ?_⟩
    · show ((chunk.set q.inPos none hlt :: cs).map Vector.toList).flatten = _
      rw [List.map_cons, List.flatten_cons, toList_set_of_toList hchunk hbefore hlt]
      simp [← hrest]
    · rw [room, if_neg (by simp)]
      exact hafter

end ChunkQueue

end MsgBroker.Lib
