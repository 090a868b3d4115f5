import MsgBroker.Analysis.ChunkRealloc
import MsgBroker.Model.ChunkMem

/-!
# A trimmed pointer is not a chunk

`mb_chunk_trim` records the bytes it cuts off in the header and returns a pointer behind them, but
no function takes them into account when it looks for the header 24 bytes below the pointer.
-/

set_option autoImplicit false

namespace MsgBroker.Analysis.ChunkTrim

open Lib Model Model.ChunkMem Analysis.ChunkRealloc

/-- The pointer `q` can be used for the chunk `c` at `a` of which `cut` bytes have been trimmed. -/
structure Usable (a : ℕ) (c : Chunk) (cut : ℕ) (mem : Mem) (q : ℕ) : Prop where
  size : ChunkMem.size mem q = c.size - cut
  addref : ∀ n, loadChunk (ChunkMem.addref mem q n) a c.size =
    { loadChunk mem a c.size with refcount := c.refcount + n }
  free : (ChunkMem.free mem q).1 = (if c.refcount - 1 = 0 then some a else none) ∧
    loadChunk (ChunkMem.free mem q).2 a c.size =
      { loadChunk mem a c.size with refcount := c.refcount - 1 }
  bytes : mem.load q (c.size - cut) = c.data.drop cut

/-- The pointer can be used, and after each of the trims the one that was returned. -/
def UsableAfter (a : ℕ) (c : Chunk) : List ℕ → ℕ → Mem → ℕ → Prop
  | [], cut, mem, q => Usable a c cut mem q
  | n :: ns, cut, mem, q =>
    Usable a c cut mem q ∧ UsableAfter a c ns (cut + n) (trim mem q n).2 (trim mem q n).1

variable {a : ℕ} {c : Chunk} {mem : Mem}

theorem UsableAfter.usable {ns : List ℕ} {cut q : ℕ} (h : UsableAfter a c ns cut mem q) :
    Usable a c cut mem q := by
  cases ns with
  | nil => exact h
  | cons n ns => exact h.1

theorem loadChunk_storeNat (mem : Mem) (a n : ℕ) (v : UInt32) :
    loadChunk (mem.storeNat a 4 v.toNat) a n = { loadChunk mem a n with refcount := v } := by
  have hlow : UInt32.ofNat ((mem.storeNat a 4 v.toNat).loadNat a 4) = v := by
    rw [Mem.loadNat_storeNat, Nat.mod_eq_of_lt (show v.toNat < 256 ^ 4 from v.toNat_lt),
      UInt32.ofNat_toNat]
  have hrest : ∀ b m, a + 4 ≤ b → (mem.storeNat a 4 v.toNat).load b m = mem.load b m := by
    intro b m hb
    exact Mem.load_store_of_disjoint (Or.inr (by rwa [length_leBytes]))
  have hnat : ∀ b m, a + 4 ≤ b → (mem.storeNat a 4 v.toNat).loadNat b m = mem.loadNat b m :=
    fun b m hb => congrArg leNat (hrest b m hb)
  simp only [loadChunk, hlow, hnat _ _ (by omega : a + 4 ≤ a + 8),
    hnat _ _ (by omega : a + 4 ≤ a + 16),
    hrest _ _ (by unfold chunkHdrSize; omega : a + 4 ≤ a + chunkHdrSize)]

theorem usable_start (hc : loadChunk mem a c.size = c) (hw : Whole c) :
    Usable a c 0 mem (a + chunkHdrSize) := by
  have hcount := congrArg Chunk.refcount hc
  have hsize := congrArg Chunk.size hc
  have hoffset := congrArg Chunk.offset hc
  have hdata := congrArg Chunk.data hc
  dsimp only [loadChunk] at hcount hsize hoffset hdata
  refine ⟨?_, fun n => ?_, ⟨?_, ?_⟩, ?_⟩
  · simp only [ChunkMem.size, chunkFromData_add, hsize, hoffset, hw.sizeSub, Nat.sub_zero]
  · simp only [ChunkMem.addref, chunkFromData_add, hcount, loadChunk_storeNat]
  · simp only [ChunkMem.free, chunkFromData_add, hcount]
  · simp only [ChunkMem.free, chunkFromData_add, hcount, loadChunk_storeNat]
  · rw [Nat.sub_zero, hdata, List.drop_zero]

theorem trim_zero (hc : loadChunk mem a c.size = c) (hw : Whole c) :
    trim mem (a + chunkHdrSize) 0 = (a + chunkHdrSize, mem) := by
  have hoffset : mem.loadNat (a + 16) 8 = 0 := (congrArg Chunk.offset hc).trans hw.offset
  have hstore := Mem.storeNat_loadNat mem (a + 16) 8
  rw [hoffset] at hstore
  simp only [trim, chunkFromData_add, hoffset, Nat.zero_mod, Nat.add_zero, hstore]

theorem trim_fst (hc : loadChunk mem a c.size = c) (hw : Whole c) {n : ℕ} (hn : n ≤ c.size) :
    (trim mem (a + chunkHdrSize) n).1 = a + chunkHdrSize + n := by
  have hoffset : mem.loadNat (a + 16) 8 = 0 := (congrArg Chunk.offset hc).trans hw.offset
  have hmax : n < sizeMax + 1 := by
    have := hw.size
    omega
  simp only [trim, chunkFromData_add, hoffset, Nat.zero_add, Nat.mod_eq_of_lt hmax]

theorem refcount_mod (mem : Mem) (a n : ℕ) :
    (loadChunk mem a n).refcount.toNat % 256 = (mem a).toNat := by
  have hbyte := (mem a).toNat_lt
  have hload : mem.loadNat a 4 = (mem a).toNat + 256 * leNat (mem.load (a + 1) 3) := by
    have hone : mem.loadNat a 1 = (mem a).toNat := rfl
    rw [← hone]
    exact Mem.loadNat_add mem a 1 3
  show (UInt32.ofNat (mem.loadNat a 4)).toNat % 256 = (mem a).toNat
  rw [UInt32.toNat_ofNat', hload]
  omega

/-- INTERNAL: **behind the start a reference cannot be added**: the four bytes that are written
begin above the reference count. -/
theorem not_usable {cut n : ℕ} (hn : 0 < n)
    (hcount : (loadChunk mem a c.size).refcount = c.refcount) :
    ¬ Usable a c cut mem (a + chunkHdrSize + n) := by
  intro h
  have hhdr : chunkFromData (a + chunkHdrSize + n) = a + n := by
    unfold chunkFromData
    omega
  have hbyte : ChunkMem.addref mem (a + chunkHdrSize + n) 1 a = mem a := by
    simp only [ChunkMem.addref, hhdr]
    exact Mem.storeNat_of_notMem (Or.inl (by omega))
  have hnew := congrArg (fun d => d.refcount.toNat % 256) (h.addref 1)
  have hold := refcount_mod mem a c.size
  simp only [refcount_mod, hbyte] at hnew
  rw [hcount] at hold
  rw [UInt32.toNat_add] at hnew
  have hone : (1 : UInt32).toNat = 1 := rfl
  omega

/-- A chunk stays usable through the pointers that a sequence of trims returns, if and only if none
of the trims cuts anything off.  SRC: chunk.c:11-21, 81-105 -/
theorem trims_usable_iff (hc : loadChunk mem a c.size = c) (hw : Whole c) (ns : List ℕ)
    (hns : ns.sum ≤ c.size) :
    UsableAfter a c ns 0 mem (a + chunkHdrSize) ↔ ∀ n ∈ ns, n = 0 := by
  have hstart := usable_start hc hw
  induction ns with
  | nil => exact ⟨fun _ => nofun, fun _ => hstart⟩
  | cons n ns ih =>
    rw [List.sum_cons] at hns
    have hrest := ih (by omega)
    rw [List.forall_mem_cons]
    by_cases hn : n = 0
    · subst hn
      simp only [UsableAfter, trim_zero hc hw, Nat.add_zero, true_and, hstart, hrest]
    · have hcount : (loadChunk (trim mem (a + chunkHdrSize) n).2 a c.size).refcount =
          c.refcount := by
        have hload : (trim mem (a + chunkHdrSize) n).2.load a 4 = mem.load a 4 := by
          simp only [trim, chunkFromData_add]
          exact Mem.load_store_of_disjoint (Or.inl (by omega))
        exact (congrArg (fun bytes => UInt32.ofNat (leNat bytes)) hload).trans
          (congrArg Chunk.refcount hc)
      refine ⟨fun h => ?_, fun h => absurd h.1 hn⟩
      have husable := h.2.usable
      rw [trim_fst hc hw (by omega)] at husable
      exact absurd husable (not_usable (Nat.pos_of_ne_zero hn) hcount)

/-! ## A chunk of eight bytes -/

/-- INTERNAL: a chunk of eight bytes with one holder, at the address 100. -/
def eight : Mem := fun x =>
  [1, 0, 0, 0, 0, 0, 0, 0, 8, 0, 0, 0, 0, 0, 0, 0, 0, 0, 0, 0, 0, 0, 0, 0, 10, 11, 12, 13, 14,
    15, 16, 17].getD (x - 100) 0

theorem loadChunk_eight : loadChunk eight 100 8 = ⟨1, 8, 0, [10, 11, 12, 13, 14, 15, 16, 17]⟩ := by
  decide +kernel

/-- Two trims by nothing. -/
theorem trims_usable_zero :
    UsableAfter 100 ⟨1, 8, 0, [10, 11, 12, 13, 14, 15, 16, 17]⟩ [0, 0] 0 eight 124 :=
  (trims_usable_iff loadChunk_eight ⟨rfl, rfl, by decide⟩ [0, 0] (by decide)).mpr (by decide)

/-- **One byte is cut off.**  The pointer that is returned shows the bytes behind it, but the size
that is read there is not seven, a reference that is added makes the count 257, and the
`mb_chunk_free` of the only holder does not free the chunk. -/
theorem trim_one_unusable :
    loadChunk eight 100 8 = ⟨1, 8, 0, [10, 11, 12, 13, 14, 15, 16, 17]⟩ ∧
      (trim eight 124 1).1 = 125 ∧
      (trim eight 124 1).2.load 125 7 = [11, 12, 13, 14, 15, 16, 17] ∧
      ChunkMem.size (trim eight 124 1).2 125 = 17798225727368200192 ∧
      (loadChunk (ChunkMem.addref (trim eight 124 1).2 125 1) 100 8).refcount = 257 ∧
      (ChunkMem.free (trim eight 124 1).2 125).1 = none := by
  decide +kernel

end MsgBroker.Analysis.ChunkTrim
