import MsgBroker.Analysis.ChunkRealloc
import MsgBroker.Model.Message

/-!
# Which resizes of a chunkref are all or nothing

`mb_chunkref_resize` returns nothing and ignores what its allocations return.
-/

set_option autoImplicit false

namespace MsgBroker.Analysis.ChunkrefResize

open Lib Model Analysis.ChunkRealloc

/-! ## What is promised -/

/-- A chunkref with contents: the bytes are in the chunkref, or in a chunk that has holders and is
at least as long. -/
inductive Holds (h : ChunkHeap) : Chunkref → Option Chunk → Prop where
  | inline {size : ℕ} {u : ChunkrefU} {bytes : List UInt8} : size ≤ chunkrefMax →
      u.read size = some bytes → Holds h ⟨size, u⟩ none
  | heap {size p : ℕ} {c : Chunk} : chunkrefMax < size → h (chunkFromData p) = some c → Whole c →
      1 ≤ c.refcount → size ≤ c.size → Holds h ⟨size, .chunk (some p)⟩ (some c)

/-- The allocation of a chunk of the new size succeeds. -/
def Granted (size : ℕ) (answer : BlockAnswer) : Prop :=
  size ≤ sizeMax - chunkHdrSize ∧ answer.isSome = true

/-- What the allocator is asked for by a resize. -/
def Answered (h : ChunkHeap) (self : Chunkref) (size : ℕ) (answer : BlockAnswer) : Prop :=
  match self.u with
  | .chunk (some p) =>
    if self.size ≤ chunkrefMax then NewBlock h size answer else MovedBlock h p size answer
  | _ => NewBlock h size answer

/-- The number of bytes that there is room for behind `mb_chunkref_data`. -/
def chunkrefRoom (self : Chunkref) (h : ChunkHeap) : Option ℕ :=
  if self.size ≤ chunkrefMax then some chunkrefMax
  else
    match self.u with
    | .chunk (some p) => (h (chunkFromData p)).map fun hdr => hdr.data.length - hdr.offset
    | _ => none

/-- The new size, with room for it and the common part of the bytes. -/
structure Resized (old : Chunkref) (h : ChunkHeap) (size : ℕ) (r : Chunkref × ChunkHeap) :
    Prop where
  newSize : r.1.size = size
  room : ∃ room, chunkrefRoom r.1 r.2 = some room ∧ size ≤ room
  bytes : ∃ bytes, chunkrefPeek old (min old.size size) h = some bytes ∧
    chunkrefPeek r.1 (min old.size size) r.2 = some bytes

/-- All or nothing: the chunkref is resized, or an allocation failed and nothing has changed. -/
def AllOrNothing (self : Chunkref) (h : ChunkHeap) (size : ℕ) (answer : BlockAnswer)
    (r : Chunkref × ChunkHeap) : Prop :=
  Resized self h size r ∨ ¬ Granted size answer ∧ r = (self, h)

/-- When the promise is kept.  A size that fits the chunkref needs no allocation.  Otherwise a
chunkref without a chunk needs one that succeeds; a chunk must not shrink while it has several
holders, and where its reallocation fails the old block must be long enough for the new size. -/
def Safe (chunk : Option Chunk) (size : ℕ) (answer : BlockAnswer) : Prop :=
  size ≤ chunkrefMax ∨
    match chunk with
    | none => Granted size answer
    | some c =>
      Granted size answer ∧ (1 < c.refcount → c.size ≤ size) ∨
        ¬ Granted size answer ∧ size ≤ c.size

theorem Answered.newBlock {h : ChunkHeap} {s size : ℕ} {u : ChunkrefU} {answer : BlockAnswer}
    (hans : Answered h ⟨s, u⟩ size answer) (hs : s ≤ chunkrefMax) : NewBlock h size answer := by
  unfold Answered at hans
  dsimp only at hans
  split at hans
  · rwa [if_pos hs] at hans
  · exact hans

/-! ## The four transitions -/

section Transitions

variable {h : ChunkHeap} {size : ℕ} {answer : BlockAnswer}

variable {u : ChunkrefU} {n p s : ℕ} {bytes : List UInt8} {c : Chunk}

theorem length_of_read
    (hread : u.read n = some bytes) : bytes.length = n := by
  cases u with
  | data old =>
    simp only [ChunkrefU.read, readBytes] at hread
    split at hread
    · next hn =>
      cases hread
      rw [List.length_take, Nat.min_eq_left hn]
    · cases hread
  | chunk p =>
    cases n with
    | zero =>
      cases hread
      rfl
    | succ n => cases hread

theorem read_take {m : ℕ} (hread : u.read n = some bytes)
    (hle : m ≤ n) : u.read m = some (bytes.take m) := by
  cases u with
  | data old =>
    simp only [ChunkrefU.read, readBytes] at hread ⊢
    split at hread
    · next hn =>
      cases hread
      rw [if_pos (hle.trans hn), List.take_take, Nat.min_eq_left hle]
    · cases hread
  | chunk p =>
    cases n with
    | zero =>
      cases hread
      rw [Nat.le_zero.mp hle]
      rfl
    | succ n => cases hread

theorem peek_heap (hsize : chunkrefMax < size)
    (hc : h (chunkFromData p) = some c) (hw : Whole c) (hn : n ≤ c.size) :
    chunkrefPeek ⟨size, .chunk (some p)⟩ n h = some (c.data.take n) := by
  have hlen : n ≤ c.data.length := hw.length ▸ hn
  simp only [chunkrefPeek, if_neg (Nat.not_le.mpr hsize), hc, hw.offset, List.drop_zero, readBytes,
    if_pos hlen, Option.bind_eq_bind, Option.bind_some]

theorem room_heap (hsize : chunkrefMax < size)
    (hc : h (chunkFromData p) = some c) (hw : Whole c) :
    chunkrefRoom ⟨size, .chunk (some p)⟩ h = some c.size := by
  simp only [chunkrefRoom, if_neg (Nat.not_le.mpr hsize), hc, hw.offset, hw.length, Option.map_some,
    Nat.sub_zero]

theorem resized_heap {self : Chunkref} {h' : ChunkHeap}
    (hpeek : chunkrefPeek self (min self.size size) h = some bytes) (hsize : chunkrefMax < size)
    (hc : h' (chunkFromData p) = some c) (hw : Whole c) (hle : size ≤ c.size)
    (htake : c.data.take (min self.size size) = bytes) :
    Resized self h size (⟨size, .chunk (some p)⟩, h') where
  newSize := rfl
  room := ⟨c.size, room_heap hsize hc hw, hle⟩
  bytes := ⟨bytes, hpeek, htake ▸ peek_heap hsize hc hw ((Nat.min_le_right _ _).trans hle)⟩

theorem resize_inline (hs : s ≤ chunkrefMax)
    (hread : u.read s = some bytes) (hsize : size ≤ chunkrefMax) :
    ∃ r, chunkrefResize ⟨s, u⟩ size answer h = some r ∧ Resized ⟨s, u⟩ h size r := by
  refine ⟨(⟨size, u⟩, h), if_pos ⟨hs, hsize⟩, rfl, ?_, ?_⟩
  · exact ⟨chunkrefMax, if_pos hsize, hsize⟩
  · have hcommon := read_take hread (Nat.min_le_left s size)
    exact ⟨_, (if_pos hs).trans hcommon, (if_pos hsize).trans hcommon⟩

theorem resize_into (hs : chunkrefMax < s)
    (hc : h (chunkFromData p) = some c) (hw : Whole c) (hle : s ≤ c.size)
    (hsize : size ≤ chunkrefMax) :
    ∃ r, chunkrefResize ⟨s, .chunk (some p)⟩ size answer h = some r ∧
      Resized ⟨s, .chunk (some p)⟩ h size r := by
  have hcopy : ¬ s < size := by omega
  have hpeek := peek_heap hs hc hw (by omega : size ≤ c.size)
  have hmin : min s size = size := by omega
  have hlen : (c.data.take size).length = size := by
    rw [List.length_take, hw.length]
    omega
  have hpoke : copyInto (List.replicate size 0) 0 (c.data.take size) = some (c.data.take size) := by
    rw [copyInto_zero (by rw [List.length_replicate, hlen]), hlen,
      List.drop_of_length_le (by rw [List.length_replicate]), List.append_nil]
  obtain ⟨h', hfree⟩ : ∃ h', chunkFree p h = some h' := by
    simp only [chunkFree, hc, Option.bind_eq_bind, Option.bind_some]
    split
    · exact ⟨_, rfl⟩
    · exact ⟨_, rfl⟩
  have hresize : chunkrefResize ⟨s, .chunk (some p)⟩ size answer h =
      some ((chunkrefMv ⟨size, .data (c.data.take size)⟩).1, h') := by
    simp only [chunkrefResize, if_neg (fun hle => Nat.not_le.mpr hs (And.left hle)),
      if_neg (fun hlt => Nat.not_lt.mpr hsize (And.right hlt)), chunkrefInit, if_pos hsize,
      if_neg hcopy, hpeek, chunkrefPoke, hpoke, chunkrefTerm, chunkrefDrop,
      if_neg (Nat.not_le.mpr hs), hfree, Option.bind_eq_bind, Option.bind_some, Option.map_some,
      Option.pure_def]
  have hcommon : chunkrefPeek ⟨s, .chunk (some p)⟩ (min s size) h = some (c.data.take size) := by
    rw [hmin]
    exact hpeek
  refine ⟨_, hresize, ?_⟩
  by_cases hzero : size = 0
  · subst hzero
    exact ⟨rfl, ⟨chunkrefMax, rfl, Nat.zero_le _⟩, [], hcommon, by rw [Nat.min_zero]; rfl⟩
  · rw [chunkrefMv, if_neg hzero]
    refine ⟨rfl, ⟨chunkrefMax, if_pos hsize, hsize⟩, c.data.take size, hcommon, ?_⟩
    show chunkrefPeek ⟨size, .data (c.data.take size)⟩ (min s size) h' = some (c.data.take size)
    rw [hmin, chunkrefPeek, if_pos hsize, ChunkrefU.read, readBytes,
      if_pos (Nat.le_of_eq hlen.symm), List.take_take, Nat.min_self]

theorem resize_out (hs : s ≤ chunkrefMax)
    (hread : u.read s = some bytes) (hsize : chunkrefMax < size) {new : ℕ} {block : List UInt8}
    (hmax : size ≤ sizeMax - chunkHdrSize) (hblock : block.length = size) :
    ∃ r, chunkrefResize ⟨s, u⟩ size (some (new, block)) h = some r ∧ Resized ⟨s, u⟩ h size r := by
  have hcopy : s < size := by omega
  have hmin : min s size = s := by omega
  have hlen : bytes.length = s := length_of_read hread
  have hpeek : ∀ h', chunkrefPeek ⟨s, u⟩ s h' = some bytes := fun h' => (if_pos hs).trans hread
  have hresize : chunkrefResize ⟨s, u⟩ size (some (new, block)) h =
      some (⟨size, .chunk (some (new + chunkHdrSize))⟩,
        Function.update (Function.update h new (some ⟨1, size, 0, block⟩)) new
          (some ⟨1, size, 0, bytes ++ block.drop bytes.length⟩)) := by
    simp only [chunkrefResize, if_neg (fun hle => Nat.not_le.mpr hsize (And.right hle)),
      if_neg (fun hlt => Nat.not_lt.mpr hs (And.left hlt)), chunkrefInit,
      if_neg (Nat.not_le.mpr hsize), chunkAlloc, if_neg (Nat.not_lt.mpr hmax), if_pos hcopy, hpeek,
      chunkrefPoke, chunkWrite, chunkFromData_add, Function.update_self, Nat.add_zero,
      copyInto_zero (by omega : bytes.length ≤ block.length), chunkrefTerm, chunkrefDrop,
      if_pos hs, chunkrefMv, if_neg (by omega : ¬ size = 0), Option.bind_eq_bind,
      Option.bind_some, Option.map_some, Option.pure_def]
  refine ⟨_, hresize, ?_⟩
  have hwhole : Whole ⟨1, size, 0, bytes ++ block.drop bytes.length⟩ := by
    refine ⟨rfl, ?_, hmax⟩
    simp only [List.length_append, List.length_drop]
    omega
  have hcommon : chunkrefPeek ⟨s, u⟩ (min s size) h = some bytes := by
    rw [hmin]
    exact hpeek h
  refine resized_heap hcommon hsize ?_ hwhole (Nat.le_refl size) ?_
  · rw [chunkFromData_add, Function.update_self]
  · show (bytes ++ block.drop bytes.length).take (min s size) = bytes
    rw [hmin, ← hlen, List.take_left]

theorem chunkAlloc_failed (hfails : ¬ Granted size answer) :
    chunkAlloc size answer h = (.err .ENOMEM, none, h) := by
  unfold chunkAlloc
  split
  · rfl
  next hmax =>
  cases answer with
  | none => rfl
  | some block => exact absurd ⟨Nat.le_of_not_lt hmax, rfl⟩ hfails

/-- INTERNAL: **a failed allocation leaves `NULL` behind the new size.** -/
theorem resize_out_failed (hs : s ≤ chunkrefMax)
    (hread : u.read s = some bytes) (hsize : chunkrefMax < size) (hfails : ¬ Granted size answer)
    {r : Chunkref × ChunkHeap} (hr : chunkrefResize ⟨s, u⟩ size answer h = some r) :
    ¬ AllOrNothing ⟨s, u⟩ h size answer r := by
  have hinit : chunkrefInit size answer h = (⟨size, .chunk none⟩, h) := by
    rw [chunkrefInit, if_neg (Nat.not_le.mpr hsize), chunkAlloc_failed hfails]
  have hterm : chunkrefTerm ⟨s, u⟩ h = some (.null, h) := by
    rw [chunkrefTerm, chunkrefDrop, if_pos hs]
    rfl
  have hpeek : chunkrefPeek ⟨s, u⟩ s h = some bytes := (if_pos hs).trans hread
  simp only [chunkrefResize, if_neg (fun hle => Nat.not_le.mpr hsize (And.right hle)),
    if_neg (fun hlt => Nat.not_lt.mpr hs (And.left hlt)), hinit, if_pos (by omega : s < size),
    hpeek, chunkrefPoke, Option.bind_eq_bind, Option.bind_some] at hr
  split at hr
  · simp only [Option.bind_some, hterm, chunkrefMv, if_neg (by omega : ¬ size = 0),
      Option.pure_def, Option.some.injEq] at hr
    subst hr
    rintro (hresized | ⟨-, heq⟩)
    · obtain ⟨room, hroom, -⟩ := hresized.room
      rw [chunkrefRoom, if_neg (Nat.not_le.mpr hsize)] at hroom
      cases hroom
    · injection heq with hself
      injection hself with hsame
      omega
  · cases hr

theorem resize_chunk (hs : chunkrefMax < s) (hsize : chunkrefMax < size) :
    chunkrefResize ⟨s, .chunk (some p)⟩ size answer h =
      (chunkRealloc size p answer h).map fun r => (⟨size, .chunk (some r.2.1)⟩, r.2.2) := by
  rw [chunkrefResize, if_neg fun hle => Nat.not_le.mpr hs hle.1, if_pos ⟨hs, hsize⟩]
  dsimp only
  cases chunkRealloc size p answer h with
  | none => rfl
  | some r => rfl

theorem resize_realloc_failed (hs : chunkrefMax < s)
    (hc : h (chunkFromData p) = some c) (hw : Whole c) (hle : s ≤ c.size)
    (hsize : chunkrefMax < size) (hfails : ¬ Granted size answer) :
    (∃ r, chunkrefResize ⟨s, .chunk (some p)⟩ size answer h = some r ∧
      AllOrNothing ⟨s, .chunk (some p)⟩ h size answer r) ↔ size ≤ c.size := by
  have hfailed : chunkRealloc size p answer h = some (.err .ENOMEM, p, h) := by
    rw [chunkRealloc_eq hc hw]
    split
    · rfl
    next hmax =>
    cases answer with
    | none => rfl
    | some block => exact absurd ⟨Nat.le_of_not_lt hmax, rfl⟩ hfails
  have hresize : chunkrefResize ⟨s, .chunk (some p)⟩ size answer h =
      some (⟨size, .chunk (some p)⟩, h) := by
    rw [resize_chunk hs hsize, hfailed]
    rfl
  have hpeek := peek_heap hs hc hw ((Nat.min_le_left s size).trans hle)
  constructor
  · rintro ⟨r, hr, hall⟩
    cases hresize.symm.trans hr
    rcases hall with hresized | ⟨-, heq⟩
    · obtain ⟨room, hroom, hfits⟩ := hresized.room
      cases (room_heap hsize hc hw).symm.trans hroom
      exact hfits
    · injection heq with hself
      injection hself with hsame
      omega
  · intro hfits
    exact ⟨_, hresize, Or.inl (resized_heap hpeek hsize hc hw hfits rfl)⟩

theorem resize_realloc (hs : chunkrefMax < s)
    (hc : h (chunkFromData p) = some c) (hw : Whole c) (hle : s ≤ c.size)
    (hsize : chunkrefMax < size) {new : ℕ} {block : List UInt8}
    (hmax : size ≤ sizeMax - chunkHdrSize)
    (hans : MovedBlock h p size (some (new, block))) :
    (∃ r, chunkrefResize ⟨s, .chunk (some p)⟩ size (some (new, block)) h = some r ∧
      AllOrNothing ⟨s, .chunk (some p)⟩ h size (some (new, block)) r) ↔
      (1 < c.refcount → c.size ≤ size) := by
  obtain ⟨hlen, hfree⟩ := hans c hc new block rfl
  rw [hw.offset, Nat.zero_add] at hlen
  have hpeek := peek_heap hs hc hw ((Nat.min_le_left s size).trans hle)
  have hmin : min s size ≤ c.size := (Nat.min_le_left s size).trans hle
  rw [resize_chunk hs hsize, chunkRealloc_eq hc hw, if_neg (Nat.not_lt.mpr hmax)]
  dsimp only
  by_cases hshared : 1 < c.refcount
  · have hnew : h new = none := hfree.resolve_right fun hold => hold.2 hshared
    have hne : new ≠ chunkFromData p := by
      rintro rfl
      rw [hc] at hnew
      cases hnew
    rw [if_pos hshared]
    by_cases hfits : c.size ≤ block.length
    · rw [if_pos hfits]
      refine ⟨fun _ _ => hlen ▸ hfits, fun _ => ⟨_, rfl, Or.inl ?_⟩⟩
      refine resized_heap hpeek hsize ?_ (whole_copied hw hlen hfits hmax) (Nat.le_refl size) ?_
      · dsimp only
        rw [chunkFromData_add, Function.update_of_ne hne, Function.update_self]
      · show (c.data ++ block.drop c.size).take (min s size) = c.data.take (min s size)
        rw [List.take_append_of_le_length (hw.length ▸ hmin)]
    · rw [if_neg hfits]
      refine ⟨?_, fun hle' => absurd (hlen ▸ hle' hshared) hfits⟩
      rintro ⟨r, hnone, -⟩
      cases hnone
  · rw [if_neg hshared]
    refine ⟨fun _ hlt => absurd hlt hshared, fun _ => ⟨_, rfl, Or.inl ?_⟩⟩
    refine resized_heap hpeek hsize ?_ (whole_resized hw hlen hmax) (Nat.le_refl size) ?_
    · dsimp only
      rw [chunkFromData_add, Function.update_self]
    · show (resizeBytes c.data block).take (min s size) = c.data.take (min s size)
      have hcommon := congrArg (List.take (min s size)) (take_resizeBytes c.data block)
      rwa [List.take_take, List.take_take, hw.length, hlen, Nat.min_eq_left (by omega)] at hcommon

end Transitions

/-- `mb_chunkref_resize` on a chunkref with contents writes only into its storage and is all or
nothing, if and only if the resize is safe.  SRC: chunkref.c:8-18, 102-119; chunk.c:40-79 -/
theorem resize_allOrNothing_iff {h : ChunkHeap} {self : Chunkref} {chunk : Option Chunk}
    (hself : Holds h self chunk) (size : ℕ) (answer : BlockAnswer)
    (hans : Answered h self size answer) :
    (∃ r, chunkrefResize self size answer h = some r ∧ AllOrNothing self h size answer r) ↔
      Safe chunk size answer := by
  cases hself with
  | inline hs hread =>
    by_cases hsize : size ≤ chunkrefMax
    · obtain ⟨r, hr, hresized⟩ := resize_inline hs hread hsize
      exact ⟨fun _ => Or.inl hsize, fun _ => ⟨r, hr, Or.inl hresized⟩⟩
    have hlarge := Nat.lt_of_not_le hsize
    by_cases hgranted : Granted size answer
    · refine ⟨fun _ => Or.inr hgranted, fun _ => ?_⟩
      obtain ⟨hmax, hsome⟩ := hgranted
      obtain ⟨⟨new, block⟩, rfl⟩ := Option.isSome_iff_exists.mp hsome
      have hblock : block.length = size := (hans.newBlock hs new block rfl).1
      obtain ⟨r, hr, hresized⟩ := resize_out hs hread hlarge hmax hblock
      exact ⟨r, hr, Or.inl hresized⟩
    · constructor
      · rintro ⟨r, hr, hall⟩
        exact absurd hall (resize_out_failed hs hread hlarge hgranted hr)
      · rintro (hfits | hyes)
        · exact absurd hfits hsize
        · exact absurd hyes hgranted
  | @heap s p c hs hc hw _ hle =>
    by_cases hsize : size ≤ chunkrefMax
    · obtain ⟨r, hr, hresized⟩ := resize_into hs hc hw hle hsize
      exact ⟨fun _ => Or.inl hsize, fun _ => ⟨r, hr, Or.inl hresized⟩⟩
    have hlarge := Nat.lt_of_not_le hsize
    have hmoved : MovedBlock h p size answer := by
      simpa only [Answered, if_neg (Nat.not_le.mpr hs)] using hans
    unfold Safe
    dsimp only
    rw [or_iff_right hsize]
    by_cases hgranted : Granted size answer
    · rw [or_iff_left fun hno => hno.1 hgranted, and_iff_right hgranted]
      obtain ⟨hmax, hsome⟩ := hgranted
      obtain ⟨⟨new, block⟩, rfl⟩ := Option.isSome_iff_exists.mp hsome
      exact resize_realloc hs hc hw hle hlarge hmax hmoved
    · rw [or_iff_right fun hyes => hgranted hyes.1, and_iff_right hgranted]
      exact resize_realloc_failed hs hc hw hle hlarge hgranted

/-- Three bytes get a chunk of a hundred. -/
theorem resize_allOrNothing_growing :
    Holds (fun _ => none) ⟨3, .data [1, 2, 3]⟩ none ∧
      ∃ r, chunkrefResize ⟨3, .data [1, 2, 3]⟩ 100 (some (500, List.replicate 100 0))
          (fun _ => none) = some r ∧
        AllOrNothing ⟨3, .data [1, 2, 3]⟩ (fun _ => none) 100
          (some (500, List.replicate 100 0)) r := by
  have hself : Holds (fun _ => none) ⟨3, .data [1, 2, 3]⟩ none :=
    .inline (by decide) (rfl : ChunkrefU.read (.data [1, 2, 3]) 3 = some [1, 2, 3])
  refine ⟨hself, (resize_allOrNothing_iff hself 100 _ ?_).mpr (Or.inr ⟨by decide, rfl⟩)⟩
  rintro new bytes ⟨⟩
  exact ⟨rfl, rfl⟩

/-- INTERNAL: a chunk of a hundred bytes at the address 500. -/
def hundred : Chunk := ⟨1, 100, 0, List.replicate 100 7⟩

/-- **A reallocation that fails.**  A chunkref with a chunk of a hundred bytes is resized to two
hundred and `mb_realloc` answers `NULL`: the size is two hundred afterwards, and the block is the
old one. -/
theorem resize_over_short_block :
    Holds (fun a => if a = 500 then some hundred else none) ⟨100, .chunk (some 524)⟩
        (some hundred) ∧
      ∃ r, chunkrefResize ⟨100, .chunk (some 524)⟩ 200 none
          (fun a => if a = 500 then some hundred else none) = some r ∧
        r.1.size = 200 ∧ chunkrefRoom r.1 r.2 = some 100 ∧
        ¬ AllOrNothing ⟨100, .chunk (some 524)⟩ (fun a => if a = 500 then some hundred else none)
          200 none r := by
  refine ⟨.heap (by decide) rfl ⟨rfl, rfl, by decide⟩ (by decide) (Nat.le_refl 100), _, rfl, rfl,
    rfl, ?_⟩
  rintro (hresized | ⟨-, heq⟩)
  · obtain ⟨room, hroom, hle⟩ := hresized.room
    cases hroom
    exact absurd hle (by decide)
  · injection heq with hself
    injection hself with hsame
    exact absurd hsame (by decide)

end MsgBroker.Analysis.ChunkrefResize
