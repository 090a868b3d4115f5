import MsgBroker.Analysis.ChunkRealloc
import MsgBroker.Lib.RefCount
import MsgBroker.Model.Message

/-!
# What the calls on chunkrefs do to the references

`Owns h R` says that the chunks of the heap are whole and that their counts are the numbers of the
references in `R`.
-/

set_option autoImplicit false

namespace MsgBroker.Analysis.MessageSpec

open Lib Model Model.MsgStore Analysis.ChunkRealloc
open Function (update update_of_ne update_self)

/-! ## Counts and bytes of the heap -/

/-- INTERNAL: the reference counts. -/
def counts (h : ChunkHeap) (a : ℕ) : Option ℕ := (h a).map fun c => c.refcount.toNat

/-- INTERNAL: the bytes of a chunk. -/
def view (h : ChunkHeap) (a : ℕ) : Option (List UInt8) := (h a).map Chunk.data

/-- INTERNAL: the heap holds exactly the chunks that are referred to. -/
structure Owns (h : ChunkHeap) (R : Multiset ℕ) : Prop where
  balanced : Balanced (counts h) R
  whole : AllWhole h

/-- INTERNAL: the chunks referred to keep their bytes. -/
def Frame (h h' : ChunkHeap) (R : Multiset ℕ) : Prop := ∀ b ∈ R, view h' b = view h b

theorem Frame.refl (h : ChunkHeap) (R : Multiset ℕ) : Frame h h R := fun _ _ => rfl

theorem Frame.trans {h₁ h₂ h₃ : ChunkHeap} {R : Multiset ℕ} (h₁₂ : Frame h₁ h₂ R)
    (h₂₃ : Frame h₂ h₃ R) : Frame h₁ h₃ R := fun b hb => (h₂₃ b hb).trans (h₁₂ b hb)

theorem Frame.mono {h h' : ChunkHeap} {R R' : Multiset ℕ} (hf : Frame h h' R) (hle : R' ⊆ R) :
    Frame h h' R' := fun b hb => hf b (hle hb)

section Chunks

variable {h : ChunkHeap} {R : Multiset ℕ} {a : ℕ}

theorem Owns.of_mem (ho : Owns h R) (ha : a ∈ R) :
    ∃ c, h a = some c ∧ c.refcount.toNat = R.count a ∧ Whole c := by
  obtain ⟨c, hc, hcount⟩ := Option.map_eq_some_iff.mp (ho.balanced.of_mem ha)
  exact ⟨c, hc, hcount, ho.whole a c hc⟩

theorem counts_update (h : ChunkHeap) (a : ℕ) (c : Option Chunk) :
    counts (update h a c) a = c.map fun c => c.refcount.toNat := by
  unfold counts
  rw [update_self]

theorem counts_update_of_ne (h : ChunkHeap) {a b : ℕ} (hb : b ≠ a) (c : Option Chunk) :
    counts (update h a c) b = counts h b := by
  unfold counts
  rw [update_of_ne hb]

theorem view_update (h : ChunkHeap) (a : ℕ) (c : Option Chunk) :
    view (update h a c) a = c.map Chunk.data := by
  unfold view
  rw [update_self]

theorem view_update_of_ne (h : ChunkHeap) {a b : ℕ} (hb : b ≠ a) (c : Option Chunk) :
    view (update h a c) b = view h b := by
  unfold view
  rw [update_of_ne hb]

theorem view_update_hdr {c : Chunk} (c' : Chunk) (hc : h a = some c) (hdata : c'.data = c.data)
    (b : ℕ) :
    view (update h a (some c')) b = view h b := by
  by_cases hb : b = a
  · subst hb
    rw [view_update]
    unfold view
    rw [hc]
    exact congrArg some hdata
  · exact view_update_of_ne h hb _

theorem alloc_spec (ho : Owns h R) {size new : ℕ} {bytes : List UInt8}
    (hsize : size ≤ sizeMax - chunkHdrSize) (hlen : bytes.length = size) (hnew : h new = none) :
    ∃ h', chunkAlloc size (some (new, bytes)) h = (.ok, some (new + chunkHdrSize), h') ∧
      Owns h' (new ::ₘ R) ∧ h' new = some ⟨1, size, 0, bytes⟩ ∧ new ∉ R ∧ Frame h h' R := by
  have hnone : counts h new = none := by rw [counts, hnew]; rfl
  have hfresh : new ∉ R := ho.balanced.notMem hnone
  refine ⟨update h new (some ⟨1, size, 0, bytes⟩), ?_, ⟨?_, ?_⟩, ?_, hfresh, ?_⟩
  · unfold chunkAlloc
    rw [if_neg (Nat.not_lt.mpr hsize)]
  · apply ho.balanced.acquire
    · rw [counts_update, Multiset.count_eq_zero.mpr hfresh]
      rfl
    · intro b hb
      exact counts_update_of_ne h hb _
  · exact ho.whole.update ⟨rfl, hlen, hsize⟩
  · rw [update_self]
  · intro b hb
    have hne : b ≠ new := fun heq => hfresh (heq ▸ hb)
    exact view_update_of_ne h hne _

theorem addref_spec (ho : Owns h R) (ha : a ∈ R) (hlt : R.count a + 1 < 2 ^ 32) :
    ∃ h', chunkAddref (a + chunkHdrSize) 1 h = some h' ∧ Owns h' (a ::ₘ R) ∧
      ∀ b, view h' b = view h b := by
  obtain ⟨c, hc, hcount, hw⟩ := ho.of_mem ha
  refine ⟨update h a (some { c with refcount := c.refcount + 1 }), ?_, ⟨?_, ?_⟩,
    view_update_hdr { c with refcount := c.refcount + 1 } hc rfl⟩
  · simp only [chunkAddref, chunkFromData_add, hc, bind, Option.bind_some, pure]
  · apply ho.balanced.acquire
    · rw [counts_update]
      show some (c.refcount + 1).toNat = _
      rw [UInt32.toNat_add, hcount]
      congr 1
      show (R.count a + 1) % 2 ^ 32 = _
      exact Nat.mod_eq_of_lt hlt
    · intro b hb
      exact counts_update_of_ne h hb _
  · exact ho.whole.update ⟨hw.offset, hw.length, hw.size⟩

theorem free_spec (ho : Owns h (a ::ₘ R)) :
    ∃ h', chunkFree (a + chunkHdrSize) h = some h' ∧ Owns h' R ∧ Frame h h' R := by
  obtain ⟨c, hc, hcount, hw⟩ := ho.of_mem (Multiset.mem_cons_self a R)
  rw [Multiset.count_cons_self] at hcount
  have hle : (1 : UInt32) ≤ c.refcount := by
    rw [UInt32.le_iff_toNat_le, hcount]
    exact Nat.le_add_left 1 _
  have hsub : (c.refcount - 1).toNat = R.count a := by
    rw [UInt32.toNat_sub_of_le _ _ hle, hcount]
    rfl
  by_cases hlast : c.refcount - 1 = 0
  · have hzero : R.count a = 0 := by rw [← hsub, hlast]; rfl
    refine ⟨update h a none, ?_, ⟨?_, ho.whole.erase a⟩, ?_⟩
    · simp only [chunkFree, chunkFromData_add, hc, bind, Option.bind_some, if_pos hlast, pure]
    · apply ho.balanced.release
      · rw [counts_update, if_pos hzero]
        rfl
      · intro b hb
        exact counts_update_of_ne h hb _
    · intro b hb
      have hne : b ≠ a := fun heq => Multiset.count_eq_zero.mp hzero (heq ▸ hb)
      exact view_update_of_ne h hne _
  · have hpos : R.count a ≠ 0 := by
      intro hzero
      rw [hzero] at hsub
      exact hlast (UInt32.toNat_inj.mp hsub)
    refine ⟨update h a (some { c with refcount := c.refcount - 1 }), ?_, ⟨?_, ?_⟩, ?_⟩
    · simp only [chunkFree, chunkFromData_add, hc, bind, Option.bind_some, if_neg hlast, pure]
    · apply ho.balanced.release
      · rw [counts_update, if_neg hpos]
        exact congrArg some hsub
      · intro b hb
        exact counts_update_of_ne h hb _
    · exact ho.whole.update ⟨hw.offset, hw.length, hw.size⟩
    · intro b _
      exact view_update_hdr { c with refcount := c.refcount - 1 } hc rfl b

theorem write_spec (ho : Owns h R) {old bytes : List UInt8} (hold : view h a = some old)
    (hlen : bytes.length = old.length) :
    ∃ h', chunkWrite (a + chunkHdrSize) 0 bytes h = some h' ∧ Owns h' R ∧
      view h' a = some bytes ∧ ∀ b, b ≠ a → view h' b = view h b := by
  obtain ⟨c, hc, rfl⟩ := Option.map_eq_some_iff.mp hold
  have hw := ho.whole a c hc
  have hcopy : copyInto c.data (c.offset + 0) bytes = some bytes := by
    rw [hw.offset, Nat.add_zero, copyInto_zero (Nat.le_of_eq hlen), hlen, List.drop_length,
      List.append_nil]
  refine ⟨update h a (some { c with data := bytes }), ?_, ⟨?_, ?_⟩, view_update h a _, ?_⟩
  · simp only [chunkWrite, chunkFromData_add, hc, bind, Option.bind_some, hcopy, pure]
  · intro b
    rw [← ho.balanced b]
    by_cases hb : b = a
    · subst hb
      rw [counts_update, counts, hc]
      rfl
    · exact counts_update_of_ne h hb _
  · exact ho.whole.update ⟨hw.offset, hlen.trans hw.length, hw.size⟩
  · intro b hb
    exact view_update_of_ne h hb _

end Chunks

/-! ## Chunkrefs -/

section Chunkrefs

variable {h h' : ChunkHeap} {R : Multiset ℕ} {r : Chunkref} {bytes : List UInt8}

/-- INTERNAL: the chunkref holds the bytes, itself or in its chunk. -/
structure Holds (h : ChunkHeap) (r : Chunkref) (bytes : List UInt8) : Prop where
  size : r.size = bytes.length
  inline : r.size ≤ chunkrefMax → r.u.read r.size = some bytes
  heap : chunkrefMax < r.size →
    ∃ a, r.u = .chunk (some (a + chunkHdrSize)) ∧ view h a = some bytes

theorem refs_of_le (hle : r.size ≤ chunkrefMax) : r.refs = 0 := by
  unfold Chunkref.refs
  rw [if_pos hle]

theorem refs_of_lt (hlt : chunkrefMax < r.size) {a : ℕ}
    (hu : r.u = .chunk (some (a + chunkHdrSize))) : r.refs = {a} := by
  unfold Chunkref.refs
  rw [if_neg (Nat.not_le.mpr hlt), hu]
  show ({chunkFromData (a + chunkHdrSize)} : Multiset ℕ) = {a}
  rw [chunkFromData_add]

theorem refs_of_size_zero (hzero : r.size = 0) : r.refs = 0 :=
  refs_of_le (by rw [hzero]; exact Nat.zero_le _)

theorem holds_data (h : ChunkHeap) (hle : bytes.length ≤ chunkrefMax) :
    Holds h ⟨bytes.length, .data bytes⟩ bytes where
  size := rfl
  inline _ := by
    show readBytes bytes bytes.length = some bytes
    unfold readBytes
    rw [if_pos (Nat.le_refl _), List.take_length]
  heap hlt := absurd hlt (Nat.not_lt.mpr hle)

theorem holds_chunk {a : ℕ} (hlt : chunkrefMax < bytes.length) (hview : view h a = some bytes) :
    Holds h ⟨bytes.length, .chunk (some (a + chunkHdrSize))⟩ bytes where
  size := rfl
  inline hle := absurd hlt (Nat.not_lt.mpr hle)
  heap _ := ⟨a, rfl, hview⟩

theorem holds_of_size_zero (hzero : r.size = 0) (hread : r.u.read 0 = some []) : Holds h r [] where
  size := hzero
  inline _ := by rw [hzero, hread]
  heap hlt := by
    rw [hzero] at hlt
    exact absurd hlt (Nat.not_lt_zero _)

theorem Holds.frame (hh : Holds h r bytes) (hf : Frame h h' r.refs) : Holds h' r bytes where
  size := hh.size
  inline := hh.inline
  heap hlt := by
    obtain ⟨a, hu, hview⟩ := hh.heap hlt
    refine ⟨a, hu, (hf a ?_).trans hview⟩
    rw [refs_of_lt hlt hu]
    exact Multiset.mem_singleton_self a

theorem Holds.chunkrefBytes (hh : Holds h r bytes) (hw : AllWhole h) :
    chunkrefBytes r h = some bytes := by
  unfold Model.chunkrefBytes
  by_cases hle : r.size ≤ chunkrefMax
  · rw [if_pos hle]
    exact hh.inline hle
  obtain ⟨a, hu, hview⟩ := hh.heap (Nat.lt_of_not_le hle)
  obtain ⟨c, hc, rfl⟩ := Option.map_eq_some_iff.mp hview
  rw [if_neg hle, hu]
  simp only [chunkFromData_add, hc, bind, Option.bind_some, (hw a c hc).offset, List.drop_zero]
  unfold readBytes
  rw [hh.size, if_pos (Nat.le_refl _), List.take_length]

theorem init_spec (ho : Owns h R) {size : ℕ} {answer : BlockAnswer}
    (halloc : chunkrefMax < size → Allocates h size answer) :
    ∃ r h', chunkrefInit size answer h = (r, h') ∧ Owns h' (r.refs + R) ∧
      Holds h' r (blank size answer) ∧ (∀ a ∈ r.refs, a ∉ R) ∧ Frame h h' R := by
  unfold chunkrefInit blank
  by_cases hle : size ≤ chunkrefMax
  · rw [if_pos hle, if_pos hle]
    have hrefs := refs_of_le (r := ⟨size, .data (List.replicate size 0)⟩) hle
    have hholds : Holds h ⟨_, .data (List.replicate size 0)⟩ (List.replicate size 0) :=
      holds_data h (by rw [List.length_replicate]; exact hle)
    rw [List.length_replicate] at hholds
    refine ⟨_, h, rfl, ?_, hholds, ?_, Frame.refl h R⟩
    · rw [hrefs, zero_add]
      exact ho
    · rw [hrefs]
      exact fun a ha => absurd ha (Multiset.notMem_zero a)
  · have hlt := Nat.lt_of_not_le hle
    obtain ⟨hsize, new, bytes, rfl, hlen, hnew⟩ := halloc hlt
    obtain ⟨h', halloc', ho', hat, hfresh, hframe⟩ := alloc_spec ho hsize hlen hnew
    rw [if_neg hle, if_neg hle, halloc']
    have hrefs := refs_of_lt (r := ⟨size, .chunk (some (new + chunkHdrSize))⟩) hlt rfl
    have hview : view h' new = some bytes := by rw [view, hat]; rfl
    have hholds := holds_chunk (h := h') (hlen ▸ hlt) hview
    rw [hlen] at hholds
    refine ⟨_, h', rfl, ?_, hholds, ?_, hframe⟩
    · rw [hrefs, Multiset.singleton_add]
      exact ho'
    · intro a ha
      rw [hrefs, Multiset.mem_singleton] at ha
      rw [ha]
      exact hfresh

theorem drop_spec (ho : Owns h (r.refs + R)) (hh : Holds h r bytes) :
    ∃ h', chunkrefDrop r h = some h' ∧ Owns h' R ∧ Frame h h' R := by
  unfold chunkrefDrop
  by_cases hle : r.size ≤ chunkrefMax
  · rw [if_pos hle]
    rw [refs_of_le hle, zero_add] at ho
    exact ⟨h, rfl, ho, Frame.refl h R⟩
  · have hlt := Nat.lt_of_not_le hle
    obtain ⟨a, hu, -⟩ := hh.heap hlt
    rw [refs_of_lt hlt hu, Multiset.singleton_add] at ho
    rw [if_neg hle, hu]
    exact free_spec ho

theorem cp_spec (ho : Owns h R) (hsub : r.refs ⊆ R) (hh : Holds h r bytes)
    (hcard : (r.refs + R).card < 2 ^ 32) :
    ∃ r' h', chunkrefCp r h = some (r', h') ∧ Owns h' (r.refs + R) ∧ r'.refs = r.refs ∧
      Holds h' r' bytes ∧ ∀ b, view h' b = view h b := by
  unfold chunkrefCp
  by_cases hle : r.size ≤ chunkrefMax
  · rw [if_pos hle, hh.inline hle]
    have hrefs := refs_of_le hle
    refine ⟨⟨r.size, .data bytes⟩, h, rfl, ?_, ?_, ?_, fun _ => rfl⟩
    · rw [hrefs, zero_add]
      exact ho
    · rw [hrefs, refs_of_le (r := ⟨r.size, .data bytes⟩) hle]
    · rw [hh.size]
      exact holds_data h (hh.size ▸ hle)
  · have hlt := Nat.lt_of_not_le hle
    obtain ⟨a, hu, hview⟩ := hh.heap hlt
    have hrefs := refs_of_lt hlt hu
    have ha : a ∈ R := hsub (by rw [hrefs]; exact Multiset.mem_singleton_self a)
    rw [hrefs, Multiset.singleton_add, Multiset.card_cons] at hcard
    have hcount := Multiset.count_le_card a R
    obtain ⟨h', haddref, ho', hsame⟩ := addref_spec ho ha (by omega)
    rw [if_neg hle, hu]
    simp only [haddref, bind, Option.bind_some, pure]
    refine ⟨_, h', rfl, ?_, ?_, ?_, hsame⟩
    · rw [hrefs, Multiset.singleton_add]
      exact ho'
    · rw [hrefs, refs_of_lt (r := ⟨r.size, .chunk (some (a + chunkHdrSize))⟩) hlt rfl]
    · rw [hh.size]
      exact holds_chunk (hh.size ▸ hlt) ((hsame a).trans hview)

theorem set_spec (ho : Owns h (r.refs + R)) {old : List UInt8} (hh : Holds h r old)
    {answer : BlockAnswer} (halloc : chunkrefMax < bytes.length → Allocates h bytes.length answer) :
    ∃ r' h', chunkrefSet r bytes answer h = some (.ok, r', h') ∧ Owns h' (r'.refs + R) ∧
      Holds h' r' bytes ∧ Frame h h' R := by
  unfold chunkrefSet
  by_cases hle : bytes.length ≤ chunkrefMax
  · obtain ⟨h', hdrop, ho', hframe⟩ := drop_spec ho hh
    rw [if_pos hle, hdrop]
    refine ⟨_, h', rfl, ?_, holds_data h' hle, hframe⟩
    rw [refs_of_le (r := ⟨bytes.length, .data bytes⟩) hle, zero_add]
    exact ho'
  · have hlt := Nat.lt_of_not_le hle
    obtain ⟨hsize, new, fresh, rfl, hlen, hnew⟩ := halloc hlt
    obtain ⟨h₁, halloc', ho₁, hat, hfresh, hframe₁⟩ := alloc_spec ho hsize hlen hnew
    have hrest : new ::ₘ (r.refs + R) = r.refs + (new ::ₘ R) := (Multiset.add_cons _ _ _).symm
    rw [hrest] at ho₁
    have hh₁ := hh.frame (hframe₁.mono fun b hb => Multiset.mem_add.mpr (Or.inl hb))
    obtain ⟨h₂, hdrop, ho₂, hframe₂⟩ := drop_spec ho₁ hh₁
    have hview : view h₂ new = some fresh := by
      rw [hframe₂ new (Multiset.mem_cons_self new R), view, hat]
      rfl
    obtain ⟨h₃, hwrite, ho₃, hview₃, hother⟩ := write_spec ho₂ hview hlen.symm
    rw [if_neg hle, halloc']
    simp only [hdrop, hwrite, bind, Option.bind_some, pure]
    refine ⟨_, h₃, rfl, ?_, holds_chunk hlt hview₃, ?_⟩
    · rw [refs_of_lt (r := ⟨bytes.length, .chunk (some (new + chunkHdrSize))⟩) hlt rfl,
        Multiset.singleton_add]
      exact ho₃
    · intro b hb
      have hne : b ≠ new := fun heq => hfresh (Multiset.mem_add.mpr (Or.inr (heq ▸ hb)))
      rw [hother b hne, hframe₂ b (Multiset.mem_cons_of_mem hb),
        hframe₁ b (Multiset.mem_add.mpr (Or.inr hb))]

theorem mv_spec (hh : Holds h r bytes) :
    (chunkrefMv r).1.refs = r.refs ∧ Holds h (chunkrefMv r).1 bytes ∧
      (chunkrefMv r).2 = .null := by
  unfold chunkrefMv
  by_cases hzero : r.size = 0
  · have hnil : bytes = [] := List.length_eq_zero_iff.mp (hh.size ▸ hzero)
    rw [if_pos hzero, hnil]
    exact ⟨(refs_of_size_zero hzero).symm, holds_of_size_zero rfl rfl, rfl⟩
  · rw [if_neg hzero]
    exact ⟨rfl, hh, rfl⟩

end Chunkrefs

end MsgBroker.Analysis.MessageSpec
