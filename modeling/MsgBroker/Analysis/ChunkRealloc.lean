import MsgBroker.Model.Chunk

/-!
# Which reallocations of a chunk keep their promise

Every chunk that any calls can build is whole: its offset is 0 and its block has as many bytes as
its header says (`whole_of_reach`).
-/

set_option autoImplicit false

namespace MsgBroker.Analysis.ChunkRealloc

open Lib Model

theorem chunkFromData_add (a : ℕ) : chunkFromData (a + chunkHdrSize) = a :=
  Nat.add_sub_cancel a chunkHdrSize

/-! ## Whole chunks -/

/-- INTERNAL: the header fits the block. -/
structure Whole (c : Chunk) : Prop where
  offset : c.offset = 0
  length : c.data.length = c.size
  size : c.size ≤ sizeMax - chunkHdrSize

/-- INTERNAL: all chunks of a heap are whole. -/
def AllWhole (h : ChunkHeap) : Prop := ∀ a c, h a = some c → Whole c

theorem AllWhole.update {h : ChunkHeap} (hw : AllWhole h) {a : ℕ} {c : Chunk} (hc : Whole c) :
    AllWhole (Function.update h a (some c)) := by
  intro b d hd
  by_cases hb : b = a
  · rw [hb, Function.update_self] at hd
    cases hd
    exact hc
  · rw [Function.update_of_ne hb] at hd
    exact hw b d hd

theorem AllWhole.erase {h : ChunkHeap} (hw : AllWhole h) (a : ℕ) :
    AllWhole (Function.update h a none) := by
  intro b d hd
  by_cases hb : b = a
  · rw [hb, Function.update_self] at hd
    cases hd
  · rw [Function.update_of_ne hb] at hd
    exact hw b d hd

theorem Whole.sizeSub {c : Chunk} (hc : Whole c) : sizeSub c.size c.offset = c.size := by
  have hle := hc.size
  rw [hc.offset]
  simp only [Model.sizeSub, sizeMax, chunkHdrSize] at hle ⊢
  omega

theorem Whole.readBytes {c : Chunk} (hc : Whole c) :
    readBytes c.data (Model.sizeSub c.size c.offset) = some c.data := by
  unfold Model.readBytes
  rw [hc.sizeSub, if_pos (Nat.le_of_eq hc.length.symm), ← hc.length, List.take_length]

theorem length_of_copyInto {dst src bytes : List UInt8} {i : ℕ}
    (h : copyInto dst i src = some bytes) : bytes.length = dst.length := by
  unfold copyInto at h
  split at h
  · cases h
    simp only [List.length_append, List.length_take, List.length_drop]
    omega
  · cases h

theorem copyInto_zero {dst src : List UInt8} (h : src.length ≤ dst.length) :
    copyInto dst 0 src = some (src ++ dst.drop src.length) := by
  unfold copyInto
  rw [Nat.zero_add, if_pos h, List.take_zero, List.nil_append]

theorem length_resizeBytes (old fresh : List UInt8) :
    (resizeBytes old fresh).length = fresh.length := by
  unfold resizeBytes
  rw [List.length_append, List.length_take, List.length_drop]
  omega

theorem take_resizeBytes (old fresh : List UInt8) :
    (resizeBytes old fresh).take (min old.length fresh.length) =
      old.take (min old.length fresh.length) := by
  unfold resizeBytes
  rw [List.take_append_of_le_length (by rw [List.length_take]; omega), List.take_take]
  congr 1
  omega

/-! ## The two paths -/

section Paths

variable {h : ChunkHeap} {p size : ℕ} {c : Chunk}

/-- INTERNAL: the new chunk of a shared one. -/
def copied (c : Chunk) (size : ℕ) (bytes : List UInt8) : Chunk :=
  ⟨1, size, 0, c.data ++ bytes.drop c.size⟩

/-- INTERNAL: a chunk after its block was moved or resized. -/
def resized (c : Chunk) (size : ℕ) (bytes : List UInt8) : Chunk :=
  { c with size := size, data := resizeBytes c.data bytes }

theorem chunkRealloc_eq (hc : h (chunkFromData p) = some c) (hw : Whole c) (size : ℕ)
    (answer : BlockAnswer) :
    chunkRealloc size p answer h =
      if sizeMax - chunkHdrSize < size then some (.err .ENOMEM, p, h)
      else
        match answer with
        | none => some (.err .ENOMEM, p, h)
        | some (new, bytes) =>
          if 1 < c.refcount then
            if c.size ≤ bytes.length then
              some (.ok, new + chunkHdrSize,
                Function.update (Function.update h new (some (copied c size bytes)))
                  (chunkFromData p) (some { c with refcount := c.refcount - 1 }))
            else none
          else
            some (.ok, new + chunkHdrSize,
              Function.update (Function.update h (chunkFromData p) none) new
                (some (resized c size bytes))) := by
  have hoff := hw.offset
  have hread := hw.readBytes
  rw [hoff] at hread
  simp only [chunkRealloc, hc, hread, hoff, Nat.not_lt_zero, if_false, Nat.add_zero, bind,
    Option.bind_some, pure]
  by_cases hsize : sizeMax - chunkHdrSize < size
  · rw [if_pos hsize, if_pos hsize]
  rw [if_neg hsize, if_neg hsize]
  cases answer with
  | none =>
    dsimp only
    split <;> rfl
  | some block =>
    obtain ⟨new, bytes⟩ := block
    dsimp only
    by_cases hshared : 1 < c.refcount
    · rw [if_pos hshared, if_pos hshared]
      by_cases hfits : c.size ≤ bytes.length
      · rw [if_pos hfits, copyInto_zero (hw.length ▸ hfits), hw.length]
        rfl
      · rw [if_neg hfits]
        unfold copyInto
        rw [if_neg (by rw [Nat.zero_add, hw.length]; exact hfits)]
        rfl
    · rw [if_neg hshared, if_neg hshared]
      simp only [resized, hoff]

theorem whole_copied (hw : Whole c) {bytes : List UInt8} (hlen : bytes.length = size)
    (hfits : c.size ≤ bytes.length) (hsize : size ≤ sizeMax - chunkHdrSize) :
    Whole (copied c size bytes) := by
  refine ⟨rfl, ?_, hsize⟩
  show (c.data ++ bytes.drop c.size).length = size
  rw [List.length_append, List.length_drop, hw.length, hlen]
  omega

theorem whole_resized (hw : Whole c) {bytes : List UInt8} (hlen : bytes.length = size)
    (hsize : size ≤ sizeMax - chunkHdrSize) : Whole (resized c size bytes) :=
  ⟨hw.offset, (length_resizeBytes c.data bytes).trans hlen, hsize⟩

end Paths

/-! ## Whole in every run -/

section Runs

variable {h h' : ChunkHeap}

theorem AllWhole.alloc (hw : AllWhole h) {size : ℕ} {answer : BlockAnswer}
    (hans : NewBlock h size answer) : AllWhole (chunkAlloc size answer h).2.2 := by
  unfold chunkAlloc
  split
  · exact hw
  next hsize =>
  cases answer with
  | none => exact hw
  | some block =>
    obtain ⟨new, bytes⟩ := block
    exact hw.update ⟨rfl, (hans new bytes rfl).1, Nat.le_of_not_lt hsize⟩

theorem AllWhole.realloc (hw : AllWhole h) {size p : ℕ} {answer : BlockAnswer}
    (hans : MovedBlock h p size answer) {r : Rc × ℕ × ChunkHeap}
    (hr : chunkRealloc size p answer h = some r) : AllWhole r.2.2 := by
  cases hc : h (chunkFromData p) with
  | none =>
    simp only [chunkRealloc, hc] at hr
    cases hr
  | some c =>
    have hwc := hw _ _ hc
    have hoff := hwc.offset
    rw [chunkRealloc_eq hc hwc] at hr
    split at hr
    · cases hr
      exact hw
    next hsize =>
    have hsize := Nat.le_of_not_lt hsize
    cases answer with
    | none =>
      cases hr
      exact hw
    | some block =>
      obtain ⟨new, bytes⟩ := block
      have hlen : bytes.length = size := by
        rw [(hans c hc new bytes rfl).1, hoff, Nat.zero_add]
      dsimp only at hr
      split at hr
      · split at hr
        · next hfits =>
          cases hr
          exact (hw.update (whole_copied hwc hlen hfits hsize)).update
            ⟨hwc.offset, hwc.length, hwc.size⟩
        · cases hr
      · cases hr
        exact (hw.erase _).update (whole_resized hwc hlen hsize)

theorem AllWhole.free (hw : AllWhole h) {p : ℕ} (hr : chunkFree p h = some h') : AllWhole h' := by
  obtain ⟨c, hc, hr⟩ := Option.bind_eq_some_iff.mp hr
  have hwc := hw _ _ hc
  split at hr
  · cases hr
    exact hw.erase _
  · cases hr
    exact hw.update ⟨hwc.offset, hwc.length, hwc.size⟩

theorem AllWhole.addref (hw : AllWhole h) {p : ℕ} {n : UInt32} (hr : chunkAddref p n h = some h') :
    AllWhole h' := by
  obtain ⟨c, hc, hr⟩ := Option.bind_eq_some_iff.mp hr
  have hwc := hw _ _ hc
  cases hr
  exact hw.update ⟨hwc.offset, hwc.length, hwc.size⟩

theorem AllWhole.write (hw : AllWhole h) {p i : ℕ} {bytes : List UInt8}
    (hr : chunkWrite p i bytes h = some h') : AllWhole h' := by
  obtain ⟨c, hc, hr⟩ := Option.bind_eq_some_iff.mp hr
  obtain ⟨data, hdata, hr⟩ := Option.bind_eq_some_iff.mp hr
  have hwc := hw _ _ hc
  cases hr
  exact hw.update ⟨hwc.offset, (length_of_copyInto hdata).trans hwc.length, hwc.size⟩

theorem whole_of_reach (hr : Reach chunkCalls ChunkCall.Answered h) : AllWhole h := by
  refine hr.invariant AllWhole (fun _ _ hc => by cases hc) ?_
  rintro h (⟨size, answer⟩ | ⟨size, p, answer⟩ | ⟨p⟩ | ⟨p, n⟩ | ⟨p, i, bytes⟩) h' hw hok hs
  · cases hs
    exact hw.alloc hok
  · obtain ⟨r, hrealloc, rfl⟩ := Option.map_eq_some_iff.mp hs
    exact hw.realloc hok hrealloc
  · exact hw.free hs
  · exact hw.addref hs
  · exact hw.write hs

end Runs

/-! ## The promise -/

section Promise

variable {h : ChunkHeap} {p size new : ℕ} {c : Chunk} {bytes : List UInt8}

theorem chunkSize_of_whole {p : ℕ} {c : Chunk} {h : ChunkHeap} (hc : h (chunkFromData p) = some c)
    (hw : Whole c) : chunkSize p h = some c.size := by
  simp only [chunkSize, hc, bind, Option.bind_some, hw.sizeSub, pure]

theorem keeps_copied (hc : h (chunkFromData p) = some c) (hw : Whole c)
    (hsize : size ≤ sizeMax - chunkHdrSize) (hlen : bytes.length = size) (hnew : h new = none)
    (hfits : c.size ≤ size) :
    ReallocKeeps h p c size (.ok, new + chunkHdrSize,
      Function.update (Function.update h new (some (copied c size bytes)))
        (chunkFromData p) (some { c with refcount := c.refcount - 1 })) := by
  have hne : new ≠ chunkFromData p := by
    rintro rfl
    rw [hc] at hnew
    cases hnew
  have hwhole := whole_copied hw hlen (hlen ▸ hfits) hsize
  have hat : (Function.update (Function.update h new (some (copied c size bytes)))
      (chunkFromData p) (some { c with refcount := c.refcount - 1 }))
      (chunkFromData (new + chunkHdrSize)) = some (copied c size bytes) := by
    rw [chunkFromData_add, Function.update_of_ne hne, Function.update_self]
  refine ⟨⟨_, hat, chunkSize_of_whole hat hwhole, rfl, hwhole.length, ?_⟩, fun _ => ⟨?_, ?_⟩, ?_⟩
  · rw [Nat.min_eq_left hfits]
    show (c.data ++ _).take c.size = _
    rw [← hw.length, List.take_left, List.take_length]
  · rw [Function.update_self]
  · rintro heq
    rw [← heq, chunkFromData_add] at hne
    exact hne rfl
  · intro b hb hb'
    rw [chunkFromData_add] at hb'
    rw [Function.update_of_ne hb, Function.update_of_ne hb']

theorem keeps_resized (hw : Whole c) (hone : c.refcount = 1)
    (hsize : size ≤ sizeMax - chunkHdrSize) (hlen : bytes.length = size) :
    ReallocKeeps h p c size (.ok, new + chunkHdrSize,
      Function.update (Function.update h (chunkFromData p) none) new
        (some (resized c size bytes))) := by
  have hwhole := whole_resized hw hlen hsize
  have hat : (Function.update (Function.update h (chunkFromData p) none) new
      (some (resized c size bytes))) (chunkFromData (new + chunkHdrSize)) =
        some (resized c size bytes) := by
    rw [chunkFromData_add, Function.update_self]
  refine ⟨⟨_, hat, chunkSize_of_whole hat hwhole, hone, hwhole.length, ?_⟩, fun hlt => ?_, ?_⟩
  · have htake := take_resizeBytes c.data bytes
    rwa [hw.length, hlen] at htake
  · rw [hone] at hlt
    exact absurd hlt (by decide)
  · intro b hb hb'
    rw [chunkFromData_add] at hb'
    rw [Function.update_of_ne hb', Function.update_of_ne hb]

/-- After any calls, `mb_chunk_realloc` on a chunk with holders writes only into its new block and
keeps what it promises, if and only if it is not a successful call that shrinks a chunk with
several holders.
SRC: chunk.c:11-79; global.c:961-968 -/
theorem realloc_keeps_iff (hr : Reach chunkCalls ChunkCall.Answered h)
    (hc : h (chunkFromData p) = some c) (hcount : 1 ≤ c.refcount) (size : ℕ)
    {answer : BlockAnswer} (hans : MovedBlock h p size answer) :
    (∃ r, chunkRealloc size p answer h = some r ∧ ReallocKeeps h p c size r) ↔
      (1 < c.refcount → size ≤ sizeMax - chunkHdrSize → answer.isSome = true → c.size ≤ size) := by
  have hw := whole_of_reach hr _ _ hc
  rw [chunkRealloc_eq hc hw]
  by_cases hsize : sizeMax - chunkHdrSize < size
  · rw [if_pos hsize]
    refine ⟨fun _ _ hle => absurd hsize (Nat.not_lt.mpr hle), fun _ => ⟨_, rfl, rfl, rfl⟩⟩
  rw [if_neg hsize]
  have hsize := Nat.le_of_not_lt hsize
  cases answer with
  | none =>
    refine ⟨fun _ _ _ hsome => ?_, fun _ => ⟨_, rfl, rfl, rfl⟩⟩
    cases hsome
  | some block =>
    obtain ⟨new, bytes⟩ := block
    obtain ⟨hlen, hfree⟩ := hans c hc new bytes rfl
    rw [hw.offset, Nat.zero_add] at hlen
    dsimp only
    by_cases hshared : 1 < c.refcount
    · have hnew : h new = none := hfree.resolve_right fun hold => hold.2 hshared
      rw [if_pos hshared, hlen]
      by_cases hfits : c.size ≤ size
      · rw [if_pos hfits]
        exact ⟨fun _ _ _ _ => hfits,
          fun _ => ⟨_, rfl, keeps_copied hc hw hsize hlen hnew hfits⟩⟩
      · rw [if_neg hfits]
        constructor
        · rintro ⟨r, hnone, -⟩
          cases hnone
        · intro hle
          exact absurd (hle hshared hsize rfl) hfits
    · have hone : c.refcount = 1 :=
        UInt32.le_antisymm (UInt32.not_lt.mp hshared) hcount
      rw [if_neg hshared]
      exact ⟨fun _ hlt => absurd hlt hshared,
        fun _ => ⟨_, rfl, keeps_resized hw hone hsize hlen⟩⟩

end Promise

/-! ## A chunk with two holders -/

/-- INTERNAL: a chunk of two bytes at the address 100 with two holders. -/
def shared : List ChunkCall :=
  [.alloc 2 (some (100, [0, 0])), .write 124 0 [7, 9], .addref 124 1]

theorem reach_shared :
    ∃ h, Reach chunkCalls ChunkCall.Answered h ∧ h 100 = some ⟨2, 2, 0, [7, 9]⟩ ∧ h 200 = none := by
  have hrun : chunkCalls.run chunkCalls.init shared = some _ := rfl
  have hok : chunkCalls.Meets ChunkCall.Answered chunkCalls.init shared := by
    refine ⟨?_, fun _ _ => ⟨trivial, fun _ _ => ⟨trivial, fun _ _ => trivial⟩⟩⟩
    rintro new bytes ⟨⟩
    exact ⟨rfl, rfl⟩
  exact ⟨_, Reach.of_run Reach.init hok hrun, rfl, rfl⟩

/-- Growing the shared chunk keeps the promise. -/
theorem realloc_keeps_growing :
    ∃ h, h 100 = some ⟨2, 2, 0, [7, 9]⟩ ∧
      ∃ r, chunkRealloc 3 124 (some (200, [0, 0, 0])) h = some r ∧
        ReallocKeeps h 124 ⟨2, 2, 0, [7, 9]⟩ 3 r := by
  obtain ⟨h, hreach, hc, hnew⟩ := reach_shared
  refine ⟨h, hc, (realloc_keeps_iff (p := 124) hreach hc (by decide) 3 ?_).mpr (by decide)⟩
  rintro hdr hhdr new bytes ⟨⟩
  rw [show chunkFromData 124 = 100 from rfl, hc] at hhdr
  cases hhdr
  exact ⟨rfl, Or.inl hnew⟩

/-- **Shrinking the shared chunk writes behind the new block**: two bytes are copied into a block
of one. -/
theorem realloc_overruns_shrinking :
    ∃ h, Reach chunkCalls ChunkCall.Answered h ∧ h 100 = some ⟨2, 2, 0, [7, 9]⟩ ∧ h 200 = none ∧
      chunkRealloc 1 124 (some (200, [0])) h = none := by
  obtain ⟨h, hreach, hc, hnew⟩ := reach_shared
  refine ⟨h, hreach, hc, hnew, ?_⟩
  rw [chunkRealloc_eq (p := 124) hc (whole_of_reach hreach _ _ hc)]
  rfl

end MsgBroker.Analysis.ChunkRealloc
