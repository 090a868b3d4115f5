import Mathlib.Data.List.Pairwise
import MsgBroker.Model.Mempool

/-!
# Where a freed message came from

A message of the pool has an extent of 224 bytes: the 8 before it and its own 216.
-/

set_option autoImplicit false

namespace MsgBroker.Analysis.MempoolTags

open Lib Model
open Function (update update_of_ne update_self)

/-! ## The two allocators -/

section Allocators

theorem take_eq {size : ℕ} {blk : ArenaBlock} (h : blk.used + size ≤ blk.size) :
    Arena.take size blk =
      some (blk.data + blk.used, { blk with used := blk.used + size }) := by
  unfold Arena.take
  rw [if_pos (by omega)]

theorem take_cases (size : ℕ) (blk : ArenaBlock) :
    blk.used + size ≤ blk.size ∨ Arena.take size blk = none := by
  unfold Arena.take
  by_cases h : blk.used ≤ blk.size ∧ size ≤ blk.size - blk.used
  · exact Or.inl (by omega)
  · exact Or.inr (if_neg h)

theorem le_newSize (blockSize size : ℕ) : size ≤ Arena.newSize blockSize size := by
  unfold Arena.newSize
  split <;> omega

theorem blockNew_cases (size : ℕ) (answer : Option ℕ) :
    Arena.blockNew size answer = none ∨
      ∃ addr, answer = some addr ∧ Arena.blockNew size answer = some ⟨addr, 0, size⟩ := by
  unfold Arena.blockNew
  split
  · exact Or.inl rfl
  · cases answer with
    | none => exact Or.inl rfl
    | some addr => exact Or.inr ⟨addr, rfl, rfl⟩

/-- INTERNAL: the block an allocation takes its piece from: one of the list, or a new one at its
end. -/
def Serves (blockSize size : ℕ) (answer : Option ℕ) (blocks pre : List ArenaBlock)
    (blk : ArenaBlock) (post : List ArenaBlock) : Prop :=
  blocks = pre ++ blk :: post ∨
    blocks = pre ∧ post = [] ∧
      ∃ addr, answer = some addr ∧ blk = ⟨addr, 0, Arena.newSize blockSize size⟩

/-- INTERNAL: **the loop of `mb_arena_alloc`** fails and changes nothing, or takes a piece of one
block. -/
theorem allocLoop_cases (blockSize size : ℕ) (answer : Option ℕ) (blocks : List ArenaBlock) :
    Arena.allocLoop blockSize size answer blocks = (none, blocks) ∨
      ∃ pre blk post, Serves blockSize size answer blocks pre blk post ∧
        blk.used + size ≤ blk.size ∧
        Arena.allocLoop blockSize size answer blocks =
          (some (blk.data + blk.used), pre ++ { blk with used := blk.used + size } :: post) := by
  induction blocks with
  | nil => exact Or.inl rfl
  | cons blk rest ih =>
    rcases take_cases size blk with hfits | hfull
    · refine Or.inr ⟨[], blk, rest, Or.inl rfl, hfits, ?_⟩
      cases rest <;> simp only [Arena.allocLoop, take_eq hfits, List.nil_append]
    cases rest with
    | nil =>
      rcases blockNew_cases (Arena.newSize blockSize size) answer with hnone | ⟨addr, ha, hnew⟩
      · exact Or.inl (by simp only [Arena.allocLoop, hfull, hnone])
      · have hfits : (⟨addr, 0, Arena.newSize blockSize size⟩ : ArenaBlock).used + size ≤
            Arena.newSize blockSize size := by
          rw [Nat.zero_add]
          exact le_newSize blockSize size
        refine Or.inr ⟨[blk], _, [], Or.inr ⟨rfl, rfl, addr, ha, rfl⟩, hfits, ?_⟩
        simp only [Arena.allocLoop, hfull, hnew, take_eq hfits, List.cons_append, List.nil_append]
    | cons next rest =>
      rcases ih with hnone | ⟨pre, blk', post, hserves, hfits, heq⟩
      · exact Or.inl (by rw [Arena.allocLoop, hfull, hnone]; simp)
      · refine Or.inr ⟨blk :: pre, blk', post, ?_, hfits, ?_⟩
        · rcases hserves with hmem | ⟨hend, hpost, hnew⟩
          · exact Or.inl (by rw [hmem]; rfl)
          · exact Or.inr ⟨by rw [hend], hpost, hnew⟩
        · rw [Arena.allocLoop, hfull, heq]
          · rfl
          · simp

theorem slab_alloc_cases (slab : Slab) (hdrs : SlabHdrs) :
    slab.alloc hdrs = (none, slab, hdrs) ∨
      ∃ raw slab', raw ∈ slab.blocks ∧ slab'.blocks = slab.blocks ∧
        slab.alloc hdrs = (some (Slab.user raw), slab',
          update hdrs raw (slabMagic, slab.objSize % 2 ^ 32)) := by
  obtain ⟨objSize, count, capacity, freelist, fits⟩ := slab
  cases freelist with
  | none => exact Or.inl rfl
  | some raws =>
    have hfits : capacity = raws.length := fits
    unfold Slab.alloc
    dsimp only
    split
    · exact Or.inl rfl
    split
    · exact Or.inl rfl
    next hcount =>
    split
    · exact Or.inl rfl
    · have hlt : count < raws.length := by omega
      refine Or.inr ⟨raws.getD count 0, ⟨objSize, count + 1, capacity, some raws, fits⟩, ?_, rfl,
        rfl⟩
      rw [List.getD_eq_getElem?_getD, List.getElem?_eq_getElem hlt, Option.getD_some]
      exact List.getElem_mem hlt

theorem slab_free_cases (obj : ℕ) (slab : Slab) (hdrs : SlabHdrs) :
    (slab.free obj hdrs).1.blocks = slab.blocks ∧
      ((slab.free obj hdrs).2 = hdrs ∨
        (slab.free obj hdrs).2 = update hdrs (obj - slabHdrSize) (0, 0)) := by
  obtain ⟨objSize, count, capacity, freelist, fits⟩ := slab
  cases freelist with
  | none => exact ⟨rfl, Or.inl rfl⟩
  | some raws =>
    unfold Slab.free
    dsimp only
    split
    · exact ⟨rfl, Or.inl rfl⟩
    split
    · exact ⟨rfl, Or.inl rfl⟩
    split
    · exact ⟨rfl, Or.inl rfl⟩
    · refine ⟨?_, Or.inr rfl⟩
      split <;> rfl

end Allocators

/-! ## Headers and tags in memory -/

section Headers

variable {mem : Mem} {raw x : ℕ}

theorem putSlabHdr_of_notMem {hdr : ℕ × ℕ} (h : x < raw ∨ raw + 8 ≤ x) :
    putSlabHdr mem raw hdr x = mem x := by
  unfold putSlabHdr
  rw [Mem.storeNat_of_notMem (by omega), Mem.storeNat_of_notMem (by omega)]

theorem putSlabHdr_self (mem : Mem) (raw : ℕ) : putSlabHdr mem raw (slabHdrs mem raw) = mem := by
  unfold putSlabHdr slabHdrs
  rw [Mem.storeNat_loadNat]
  exact Mem.storeNat_loadNat mem (raw + 4) 4

theorem loadNat_putSlabHdr_ne {hdr : ℕ × ℕ} (h : hdr.1 % 2 ^ 32 ≠ arenaMsgMagic % 2 ^ 32) :
    (putSlabHdr mem raw hdr).loadNat raw 8 ≠ arenaMsgMagic := by
  have hlow : (putSlabHdr mem raw hdr).loadNat raw 4 = hdr.1 % 256 ^ 4 := by
    rw [← Mem.loadNat_storeNat mem raw 4 hdr.1]
    apply Mem.loadNat_congr
    intro x _ hx
    exact Mem.storeNat_of_notMem (Or.inl hx)
  intro heq
  rw [Mem.loadNat_add _ raw 4 4, hlow] at heq
  apply h
  rw [← heq]
  omega

theorem loadNat_tag (mem : Mem) (raw : ℕ) :
    ((mem.storeNat raw 8 arenaMsgMagic).storeNat (raw + 8) 8 msgSize).loadNat raw 8 =
      arenaMsgMagic := by
  have hkeep : ((mem.storeNat raw 8 arenaMsgMagic).storeNat (raw + 8) 8 msgSize).loadNat raw 8 =
      (mem.storeNat raw 8 arenaMsgMagic).loadNat raw 8 := by
    apply Mem.loadNat_congr
    intro x _ hx
    exact Mem.storeNat_of_notMem (Or.inl hx)
  rw [hkeep, Mem.loadNat_storeNat]
  rfl

theorem storeTag_of_notMem {v w : ℕ} (h : x < raw ∨ raw + 16 ≤ x) :
    (mem.storeNat raw 8 v).storeNat (raw + 8) 8 w x = mem x := by
  rw [Mem.storeNat_of_notMem (by omega), Mem.storeNat_of_notMem (by omega)]

end Headers

/-! ## Messages and their places -/

section Places

variable {pool : Mempool} {mem mem' : Mem} {m m' : PoolMsg}

/-- INTERNAL: the message is a block of the slab, or lies in the used part of an arena block. -/
def Placed (pool : Mempool) (m : PoolMsg) : Prop :=
  if m.arena then
    ∃ blk ∈ pool.arena.blocks, blk.data + 8 ≤ m.addr ∧ m.addr + 216 ≤ blk.data + blk.used
  else ∃ raw ∈ pool.msgSlab.blocks, m.addr = raw + 8

/-- INTERNAL: the extents of two messages do not overlap. -/
def Far (m m' : PoolMsg) : Prop := m.addr + 224 ≤ m'.addr ∨ m'.addr + 224 ≤ m.addr

/-- INTERNAL: two live messages: the slab may hand out one block twice. -/
def Compatible (m m' : PoolMsg) : Prop :=
  Far m m' ∨ m.addr = m'.addr ∧ m.arena = false ∧ m'.arena = false

theorem Compatible.symm (h : Compatible m m') : Compatible m' m := by
  rcases h with hfar | ⟨heq, hm, hm'⟩
  · exact Or.inl hfar.symm
  · exact Or.inr ⟨heq.symm, hm', hm⟩

instance : Std.Symm Compatible := ⟨fun _ _ => Compatible.symm⟩

instance : Std.Symm Apart := ⟨fun _ _ => Or.symm⟩

/-- INTERNAL: the 8 bytes before the message are the magic number. -/
def Tagged (mem : Mem) (m : PoolMsg) : Prop := mem.loadNat (m.addr - 8) 8 = arenaMsgMagic

theorem tagged_congr (h : ∀ x, m.addr - 8 ≤ x → x < m.addr - 8 + 8 → mem' x = mem x) :
    Tagged mem' m ↔ Tagged mem m := by
  unfold Tagged
  rw [Mem.loadNat_congr h]

/-- INTERNAL: the pool keeps its blocks apart, the live messages lie in them without overlap, and
their tags tell which are of the arena. -/
structure Inv (s : PoolRun) : Prop where
  regions : s.pool.regions.Pairwise Apart
  used : ∀ blk ∈ s.pool.arena.blocks, blk.used ≤ blk.size
  placed : ∀ m ∈ s.live, Placed s.pool m
  apart : s.live.Pairwise Compatible
  tags : ∀ m ∈ s.live, (Tagged s.mem m ↔ m.arena = true)

theorem eight_le_addr (h : Placed pool m) : 8 ≤ m.addr := by
  unfold Placed at h
  split at h
  · obtain ⟨blk, -, hlow, -⟩ := h
    omega
  · obtain ⟨raw, -, haddr⟩ := h
    omega

theorem Placed.mono {pool' : Mempool} (h : Placed pool m)
    (harena : ∀ blk ∈ pool.arena.blocks, ∃ blk' ∈ pool'.arena.blocks,
      blk'.data = blk.data ∧ blk.used ≤ blk'.used)
    (hslab : ∀ raw ∈ pool.msgSlab.blocks, raw ∈ pool'.msgSlab.blocks) : Placed pool' m := by
  unfold Placed at h ⊢
  split at h
  · next ha =>
    rw [if_pos ha]
    obtain ⟨blk, hblk, hlow, hhigh⟩ := h
    obtain ⟨blk', hblk', hdata, hused⟩ := harena blk hblk
    exact ⟨blk', hblk', by omega, by omega⟩
  · next ha =>
    rw [if_neg ha]
    obtain ⟨raw, hraw, haddr⟩ := h
    exact ⟨raw, hslab raw hraw, haddr⟩

theorem exists_region (h : Placed pool m) (hused : ∀ blk ∈ pool.arena.blocks, blk.used ≤ blk.size) :
    ∃ r ∈ pool.regions, r.1 + 8 ≤ m.addr ∧ m.addr + 216 ≤ r.1 + r.2 := by
  unfold Placed at h
  unfold Mempool.regions
  split at h
  · obtain ⟨blk, hblk, hlow, hhigh⟩ := h
    refine ⟨_, List.mem_append_right _ (List.mem_map_of_mem hblk), ?_, ?_⟩
    · unfold ArenaBlock.data at hlow
      show blk.addr + 8 ≤ m.addr
      omega
    · have hle := hused blk hblk
      unfold ArenaBlock.data at hhigh
      show m.addr + 216 ≤ blk.addr + (arenaBlockHdr + blk.size)
      omega
  · obtain ⟨raw, hraw, haddr⟩ := h
    refine ⟨_, List.mem_append_left _ (List.mem_map_of_mem hraw), ?_, ?_⟩
    · show raw + 8 ≤ m.addr
      omega
    · show m.addr + 216 ≤ raw + (slabHdrSize + msgSize)
      unfold slabHdrSize msgSize
      omega

theorem Inv.tag_kept {s : PoolRun} (hi : Inv s) (hm : m ∈ s.live)
    (hframe : ∀ x, m.addr ≤ x + 8 → x < m.addr → mem' x = s.mem x) :
    Tagged mem' m ↔ m.arena = true := by
  have h8 := eight_le_addr (hi.placed m hm)
  rw [← hi.tags m hm]
  exact tagged_congr fun x hlow hhigh => hframe x (by omega) (by omega)

theorem far_of_ne {live : List PoolMsg} (h : live.Pairwise Compatible) (hm : m ∈ live)
    (hm' : m' ∈ live) (hne : m'.addr ≠ m.addr) : Far m m' := by
  have hcompatible := h.forall hm hm' (fun heq => hne (by rw [heq]))
  rcases hcompatible with hfar | ⟨heq, -⟩
  · exact hfar
  · exact absurd heq.symm hne

end Places

/-! ## Allocation -/

section Alloc

variable {s : PoolRun}

theorem slab_alloc_compatible (hi : Inv s) {raw : ℕ} (hraw : raw ∈ s.pool.msgSlab.blocks) :
    ∀ m ∈ s.live, Compatible ⟨raw + 8, false⟩ m := by
  intro m hm
  have hplaced := hi.placed m hm
  have hregions := List.pairwise_append.mp hi.regions
  unfold Placed at hplaced
  split at hplaced
  · obtain ⟨blk, hblk, hlow, hhigh⟩ := hplaced
    have hused := hi.used blk hblk
    have happart : Apart (raw, slabHdrSize + msgSize) (blk.addr, arenaBlockHdr + blk.size) :=
      hregions.2.2 _ (List.mem_map_of_mem hraw) _ (List.mem_map_of_mem hblk)
    simp only [Apart, slabHdrSize, msgSize, ArenaBlock.data, arenaBlockHdr] at happart hlow hhigh
    refine Or.inl ?_
    unfold Far
    dsimp only
    omega
  · next hslab =>
    obtain ⟨raw', hraw', haddr⟩ := hplaced
    by_cases heq : raw' = raw
    · exact Or.inr ⟨by rw [haddr, heq], rfl, Bool.eq_false_iff.mpr hslab⟩
    · have happart : Apart (raw, slabHdrSize + msgSize) (raw', slabHdrSize + msgSize) :=
        hregions.1.forall (List.mem_map_of_mem hraw)
          (List.mem_map_of_mem hraw') (fun h => heq (congrArg Prod.fst h).symm)
      simp only [Apart, slabHdrSize, msgSize] at happart
      refine Or.inl ?_
      unfold Far
      dsimp only
      omega

variable {pre post : List ArenaBlock} {blk : ArenaBlock}

theorem arena_alloc_far (hi : Inv s)
    (hblocks : s.pool.arena.blocks = pre ++ blk :: post) (hfits : blk.used + 224 ≤ blk.size) :
    ∀ m ∈ s.live, Far ⟨blk.data + blk.used + 8, true⟩ m := by
  intro m hm
  have hplaced := hi.placed m hm
  have hregions := hi.regions
  unfold Mempool.regions at hregions
  rw [hblocks, List.map_append, List.map_cons, List.pairwise_append, List.pairwise_append,
    List.pairwise_cons] at hregions
  obtain ⟨-, ⟨-, ⟨hpost, -⟩, hpre⟩, hslab⟩ := hregions
  unfold Placed at hplaced
  unfold Far
  dsimp only
  split at hplaced
  · obtain ⟨blk', hblk', hlow, hhigh⟩ := hplaced
    have hused := hi.used blk' hblk'
    rw [hblocks, List.mem_append, List.mem_cons] at hblk'
    rcases hblk' with hin | rfl | hin
    · have happart := hpre _ (List.mem_map_of_mem hin) _ List.mem_cons_self
      simp only [Apart, ArenaBlock.data, arenaBlockHdr] at happart hlow hhigh ⊢
      omega
    · simp only [ArenaBlock.data, arenaBlockHdr] at hlow hhigh ⊢
      omega
    · have happart := hpost _ (List.mem_map_of_mem hin)
      simp only [Apart, ArenaBlock.data, arenaBlockHdr] at happart hlow hhigh ⊢
      omega
  · obtain ⟨raw, hraw, haddr⟩ := hplaced
    have happart := hslab _ (List.mem_map_of_mem hraw) (blk.addr, arenaBlockHdr + blk.size)
      (List.mem_append_right _ List.mem_cons_self)
    simp only [Apart, slabHdrSize, msgSize, ArenaBlock.data, arenaBlockHdr] at happart ⊢
    omega

theorem Inv.newBlock (hi : Inv s) (blk : ArenaBlock) (hzero : blk.used = 0)
    (happart : ∀ r ∈ s.pool.regions, Apart r (blk.addr, arenaBlockHdr + blk.size)) :
    Inv { s with pool :=
      { s.pool with arena := { s.pool.arena with blocks := s.pool.arena.blocks ++ [blk] } } } where
  regions := by
    show ((s.pool.msgSlab.blocks.map _) ++ (s.pool.arena.blocks ++ [blk]).map _).Pairwise Apart
    rw [List.map_append, ← List.append_assoc, List.pairwise_append]
    refine ⟨hi.regions, List.pairwise_singleton _ _, fun r hr r' hr' => ?_⟩
    rw [List.mem_singleton.mp hr']
    exact happart r hr
  used blk' hblk' := by
    rcases List.mem_append.mp hblk' with hold | hnew
    · exact hi.used blk' hold
    · rw [List.mem_singleton.mp hnew, hzero]
      exact Nat.zero_le _
  placed m hm := (hi.placed m hm).mono
    (fun blk' hblk' => ⟨blk', List.mem_append_left _ hblk', rfl, Nat.le_refl _⟩) fun _ => id
  apart := hi.apart
  tags := hi.tags

theorem Inv.join (hi : Inv s) {t : PoolRun} {m₀ : PoolMsg} (hlive : t.live = m₀ :: s.live)
    (hregions : t.pool.regions = s.pool.regions)
    (hused : ∀ blk ∈ t.pool.arena.blocks, blk.used ≤ blk.size)
    (hkept : ∀ m, Placed s.pool m → Placed t.pool m) (hplaced : Placed t.pool m₀)
    (hcompatible : ∀ m ∈ s.live, Compatible m₀ m) (htag : Tagged t.mem m₀ ↔ m₀.arena = true)
    (hframe : ∀ x, x + 8 < m₀.addr ∨ m₀.addr + 216 ≤ x → t.mem x = s.mem x) : Inv t := by
  refine ⟨hregions ▸ hi.regions, hused, ?_, ?_, ?_⟩
  · rw [hlive]
    exact List.forall_mem_cons.mpr ⟨hplaced, fun m hm => hkept m (hi.placed m hm)⟩
  · rw [hlive]
    exact List.pairwise_cons.mpr ⟨hcompatible, hi.apart⟩
  · rw [hlive]
    refine List.forall_mem_cons.mpr ⟨htag, fun m hm => ?_⟩
    rcases hcompatible m hm with hfar | ⟨heq, hnew, hold⟩
    · unfold Far at hfar
      exact hi.tag_kept hm fun x hlow hhigh => hframe x (by omega)
    · unfold Tagged at htag ⊢
      rw [← heq, htag, hnew, hold]

theorem Inv.slabAlloc (hi : Inv s) {raw : ℕ} {slab : Slab} (hraw : raw ∈ s.pool.msgSlab.blocks)
    (hblocks : slab.blocks = s.pool.msgSlab.blocks) {hdr : ℕ × ℕ}
    (hne : hdr.1 % 2 ^ 32 ≠ arenaMsgMagic % 2 ^ 32) :
    Inv ⟨{ s.pool with msgSlab := slab }, putSlabHdr s.mem raw hdr,
      ⟨raw + 8, false⟩ :: s.live⟩ := by
  have hkept : ∀ m, Placed s.pool m → Placed { s.pool with msgSlab := slab } m := fun m hm =>
    hm.mono (fun blk hblk => ⟨blk, hblk, rfl, Nat.le_refl _⟩) fun raw hraw => hblocks ▸ hraw
  refine hi.join rfl ?_ hi.used hkept (hkept _ ⟨raw, hraw, rfl⟩) (slab_alloc_compatible hi hraw)
    (iff_of_false (loadNat_putSlabHdr_ne hne) Bool.false_ne_true)
    fun x hx => putSlabHdr_of_notMem (by dsimp only at hx; omega)
  unfold Mempool.regions
  rw [hblocks]

/-- INTERNAL: the pool after a piece of the block `blk` was handed out with its tag. -/
def taken (s : PoolRun) (pre : List ArenaBlock) (blk : ArenaBlock) (post : List ArenaBlock) :
    PoolRun where
  pool := ⟨⟨pre ++ { blk with used := blk.used + 224 } :: post, s.pool.arena.blockSize⟩,
    s.pool.msgSlab⟩
  mem := (s.mem.storeNat (blk.data + blk.used) 8 arenaMsgMagic).storeNat (blk.data + blk.used + 8)
    8 msgSize
  live := ⟨blk.data + blk.used + 8, true⟩ :: s.live

theorem Placed.taken {m : PoolMsg}
    (hblocks : s.pool.arena.blocks = pre ++ blk :: post) (h : Placed s.pool m) :
    Placed (taken s pre blk post).pool m := by
  refine h.mono (fun blk' hblk' => ?_) fun _ => id
  rw [hblocks, List.mem_append, List.mem_cons] at hblk'
  rcases hblk' with hin | rfl | hin
  · exact ⟨blk', List.mem_append_left _ hin, rfl, Nat.le_refl _⟩
  · exact ⟨_, List.mem_append_right _ List.mem_cons_self, rfl, Nat.le_add_right _ _⟩
  · exact ⟨blk', List.mem_append_right _ (List.mem_cons_of_mem _ hin), rfl, Nat.le_refl _⟩

theorem placed_taken (s : PoolRun) (pre : List ArenaBlock) (blk : ArenaBlock)
    (post : List ArenaBlock) :
    Placed (taken s pre blk post).pool ⟨blk.data + blk.used + 8, true⟩ := by
  refine ⟨_, List.mem_append_right _ List.mem_cons_self, ?_, ?_⟩
  · show blk.data + 8 ≤ blk.data + blk.used + 8
    omega
  · show blk.data + blk.used + 8 + 216 ≤ blk.data + (blk.used + 224)
    omega

theorem Inv.arenaAlloc (hi : Inv s)
    (hblocks : s.pool.arena.blocks = pre ++ blk :: post) (hfits : blk.used + 224 ≤ blk.size) :
    Inv (taken s pre blk post) := by
  have hfar := arena_alloc_far hi hblocks hfits
  refine hi.join rfl ?_ ?_ (fun m hm => hm.taken hblocks) (placed_taken s pre blk post)
    (fun m hm => Or.inl (hfar m hm)) (iff_of_true ?_ rfl)
    fun x hx => storeTag_of_notMem (by dsimp only at hx; omega)
  · unfold Mempool.regions
    rw [hblocks]
    simp only [taken, List.map_append, List.map_cons]
  · intro blk' hblk'
    rcases List.mem_append.mp hblk' with hpre | hrest
    · exact hi.used blk' (hblocks ▸ List.mem_append_left _ hpre)
    rcases List.mem_cons.mp hrest with rfl | hpost
    · exact hfits
    · exact hi.used blk' (hblocks ▸ List.mem_append_right _ (List.mem_cons_of_mem _ hpost))
  · show Mem.loadNat _ (blk.data + blk.used + 8 - 8) 8 = _
    rw [Nat.add_sub_cancel]
    exact loadNat_tag s.mem (blk.data + blk.used)

theorem alloc_cases (s : PoolRun) (answer : Option ℕ) :
    s.alloc answer = s ∨
    (∃ raw slab hdr, raw ∈ s.pool.msgSlab.blocks ∧ slab.blocks = s.pool.msgSlab.blocks ∧
      hdr.1 = slabMagic ∧
      s.alloc answer = ⟨{ s.pool with msgSlab := slab }, putSlabHdr s.mem raw hdr,
        ⟨raw + 8, false⟩ :: s.live⟩) ∨
    ∃ pre blk post, Serves s.pool.arena.blockSize 224 answer s.pool.arena.blocks pre blk post ∧
      blk.used + 224 ≤ blk.size ∧
      s.alloc answer = taken s pre blk post := by
  unfold PoolRun.alloc Mempool.allocMsg
  rcases slab_alloc_cases s.pool.msgSlab (slabHdrs s.mem) with
    hnone | ⟨raw, slab, hraw, hblocks, hsome⟩
  · rw [hnone]
    dsimp only
    rw [if_neg (by decide)]
    unfold Arena.alloc
    rcases allocLoop_cases s.pool.arena.blockSize (arenaMsgHdr + msgSize) answer
      s.pool.arena.blocks with hfull | ⟨pre, blk, post, hserves, hfits, htake⟩
    · rw [hfull]
      exact Or.inl rfl
    · rw [htake]
      exact Or.inr (Or.inr ⟨pre, blk, post, hserves, hfits, rfl⟩)
  · rw [hsome]
    refine Or.inr (Or.inl ⟨raw, slab, (slabMagic, s.pool.msgSlab.objSize % 2 ^ 32), hraw, hblocks,
      rfl, ?_⟩)
    have hback : Slab.user raw - slabHdrSize = raw := Nat.add_sub_cancel raw slabHdrSize
    dsimp only
    rw [hback, update_self]
    rfl

theorem Inv.alloc (hi : Inv s) {answer : Option ℕ} (hok : s.Allowed (.alloc answer)) :
    Inv (s.alloc answer) ∧
      ∀ m ∈ s.live, ∀ i < msgSize, (s.alloc answer).mem (m.addr + i) = s.mem (m.addr + i) := by
  rcases alloc_cases s answer with
    hsame | ⟨raw, slab, hdr, hraw, hblocks, hhdr, heq⟩ | ⟨pre, blk, post, hserves, hfits, heq⟩
  · rw [hsame]
    exact ⟨hi, fun _ _ _ _ => rfl⟩
  · rw [heq]
    refine ⟨hi.slabAlloc hraw hblocks (by rw [hhdr]; decide), fun m hm i _ => ?_⟩
    have hcompatible := slab_alloc_compatible hi hraw m hm
    unfold Compatible Far at hcompatible
    dsimp only at hcompatible
    exact putSlabHdr_of_notMem (by unfold msgSize at *; omega)
  · rw [heq]
    -- a new block first joins the pool, then the piece is taken from it
    have hserved : ∃ s' : PoolRun, Inv s' ∧ s'.pool.arena.blocks = pre ++ blk :: post ∧
        taken s' pre blk post = taken s pre blk post ∧ s'.live = s.live := by
      rcases hserves with hin | ⟨hend, hpost, addr, hanswer, hblk⟩
      · exact ⟨s, hi, hin, rfl, rfl⟩
      · have hnew := hi.newBlock blk (by rw [hblk]) (by rw [hblk]; exact hok addr hanswer)
        exact ⟨_, hnew, by rw [hend, hpost], rfl, rfl⟩
    obtain ⟨s', hi', hblocks, htaken, hlive⟩ := hserved
    have hstep := hi'.arenaAlloc hblocks hfits
    have hfar := arena_alloc_far hi' hblocks hfits
    rw [htaken] at hstep
    rw [hlive] at hfar
    refine ⟨hstep, fun m hm i hi => ?_⟩
    have happart := hfar m hm
    unfold Far at happart
    dsimp only at happart
    exact storeTag_of_notMem (by unfold msgSize at hi; omega)

end Alloc

/-! ## Free and the writes of others -/

section Free

variable {s : PoolRun}

theorem free_facts (msg : ℕ) (h8 : 8 ≤ msg) (s : PoolRun) :
    (s.free msg).pool.arena = s.pool.arena ∧
      (s.free msg).pool.msgSlab.blocks = s.pool.msgSlab.blocks ∧
      (∀ x, x < msg - 8 ∨ msg + 8 ≤ x → (s.free msg).mem x = s.mem x) ∧
      (Mempool.freePath s.mem msg ≠ .arena →
        (s.free msg).mem = s.mem ∨ (s.free msg).mem = putSlabHdr s.mem (msg - 8) (0, 0)) := by
  unfold PoolRun.free Mempool.freeMsg
  cases Mempool.freePath s.mem msg with
  | null => exact ⟨rfl, rfl, fun _ _ => rfl, fun _ => Or.inl rfl⟩
  | arena =>
    refine ⟨rfl, rfl, fun x hx => ?_, fun h => absurd rfl h⟩
    exact storeTag_of_notMem (by unfold arenaMsgHdr; omega)
  | slab =>
    obtain ⟨hblocks, hhdrs⟩ := slab_free_cases msg s.pool.msgSlab (slabHdrs s.mem)
    have hmem : putSlabHdr s.mem (msg - slabHdrSize)
          ((s.pool.msgSlab.free msg (slabHdrs s.mem)).2 (msg - slabHdrSize)) = s.mem ∨
        putSlabHdr s.mem (msg - slabHdrSize)
          ((s.pool.msgSlab.free msg (slabHdrs s.mem)).2 (msg - slabHdrSize)) =
          putSlabHdr s.mem (msg - 8) (0, 0) := by
      rcases hhdrs with hsame | hclear
      · rw [hsame]
        exact Or.inl (putSlabHdr_self s.mem _)
      · rw [hclear, update_self]
        exact Or.inr rfl
    refine ⟨rfl, hblocks, fun x hx => ?_, fun _ => hmem⟩
    exact putSlabHdr_of_notMem (by unfold slabHdrSize; omega)

theorem freePath_eq_arena_iff (hi : Inv s) {m : PoolMsg} (hm : m ∈ s.live) :
    Mempool.freePath s.mem m.addr = .arena ↔
      m.arena = true ∧ s.mem.loadNat m.addr 8 = msgSize := by
  have h8 := eight_le_addr (hi.placed m hm)
  have htag := hi.tags m hm
  have hback : m.addr - arenaMsgHdr + 8 = m.addr := Nat.sub_add_cancel h8
  unfold Mempool.freePath
  rw [if_neg (by omega)]
  dsimp only
  rw [hback, ← htag]
  unfold Tagged
  by_cases h : s.mem.loadNat (m.addr - arenaMsgHdr) 8 = arenaMsgMagic ∧
      s.mem.loadNat m.addr 8 = msgSize
  · exact iff_of_true (if_pos h) h
  · refine iff_of_false (fun hpath => ?_) h
    rw [if_neg h] at hpath
    cases hpath

variable {msg : ℕ}

theorem compatible_erase {live : List PoolMsg} (h : live.Pairwise Compatible)
    (hmsg : ∃ m ∈ live, m.addr = msg) :
    ∃ m ∈ live, m.addr = msg ∧
      ∀ m' ∈ live.eraseP (fun m => m.addr == msg), Compatible m m' := by
  obtain ⟨m₀, hm₀, haddr₀⟩ := hmsg
  obtain ⟨m, l₁, l₂, -, haddr, hlive, herase⟩ :=
    List.exists_of_eraseP (p := fun m : PoolMsg => m.addr == msg) hm₀ (beq_iff_eq.mpr haddr₀)
  refine ⟨m, hlive ▸ List.mem_append_right _ List.mem_cons_self, beq_iff_eq.mp haddr, ?_⟩
  rw [hlive, List.pairwise_append, List.pairwise_cons] at h
  obtain ⟨-, ⟨hright, -⟩, hleft⟩ := h
  intro m' hm'
  rw [herase, List.mem_append] at hm'
  rcases hm' with hin | hin
  · exact (hleft m' hin m List.mem_cons_self).symm
  · exact hright m' hin

theorem Inv.free (hi : Inv s) (hok : s.Allowed (.free msg)) : Inv (s.free msg) := by
  obtain ⟨m, hm, rfl, hothers⟩ := compatible_erase hi.apart hok
  have h8 := eight_le_addr (hi.placed m hm)
  obtain ⟨harena, hslab, hframe, hpath⟩ := free_facts m.addr h8 s
  have hlive : (s.free m.addr).live = s.live.eraseP fun m' => m'.addr == m.addr := rfl
  have hregions : (s.free m.addr).pool.regions = s.pool.regions := by
    unfold Mempool.regions
    rw [harena, hslab]
  refine ⟨hregions ▸ hi.regions, fun blk hblk => hi.used blk (harena ▸ hblk), ?_, ?_, ?_⟩
  · intro m' hm'
    exact (hi.placed m' (List.mem_of_mem_eraseP hm')).mono
      (fun blk hblk => ⟨blk, harena ▸ hblk, rfl, Nat.le_refl _⟩) fun raw hraw => hslab ▸ hraw
  · rw [hlive]
    exact hi.apart.sublist List.eraseP_sublist
  · intro m' hm'
    have hin : m' ∈ s.live := List.mem_of_mem_eraseP hm'
    rcases hothers m' hm' with hfar | ⟨heq, hm_slab, hslab'⟩
    · unfold Far at hfar
      exact hi.tag_kept hin fun x hlow hhigh => hframe x (by omega)
    · -- the block was handed out twice: its header is as it was or cleared
      have hnot : Mempool.freePath s.mem m.addr ≠ .arena := by
        intro h
        rw [freePath_eq_arena_iff hi hm, hm_slab] at h
        exact absurd h.1 (by decide)
      refine iff_of_false ?_ (by rw [hslab']; decide)
      have hold : ¬ Tagged s.mem m' := by
        rw [hi.tags m' hin, hslab']
        decide
      rcases hpath hnot with hsame | hclear
      · rwa [hsame]
      · rw [hclear]
        unfold Tagged
        rw [← heq]
        exact loadNat_putSlabHdr_ne (by decide)

theorem Inv.writeByte (hi : Inv s) {a : ℕ} (byte : UInt8)
    (ha : ∀ m ∈ s.live, a < m.addr - 8 ∨ m.addr ≤ a) :
    Inv { s with mem := update s.mem a byte } where
  regions := hi.regions
  used := hi.used
  placed := hi.placed
  apart := hi.apart
  tags m hm := hi.tag_kept hm fun x hlow hhigh => by
    have hne : x ≠ a := by
      have := ha m hm
      omega
    exact update_of_ne hne _ _

theorem Inv.write (hi : Inv s) {i : ℕ} (byte : UInt8) (hok : s.Allowed (.write msg i byte)) :
    Inv { s with mem := update s.mem (msg + i) byte } := by
  obtain ⟨⟨m, hm, rfl⟩, hlt⟩ := hok
  refine hi.writeByte byte fun m' hm' => ?_
  have h8 := eight_le_addr (hi.placed m' hm')
  unfold msgSize at hlt
  by_cases heq : m'.addr = m.addr
  · omega
  · have hfar := far_of_ne hi.apart hm hm' heq
    unfold Far at hfar
    omega

theorem Inv.elsewhere (hi : Inv s) {a : ℕ} (byte : UInt8) (hok : s.Allowed (.elsewhere a byte)) :
    Inv { s with mem := update s.mem a byte } := by
  refine hi.writeByte byte fun m hm => ?_
  obtain ⟨r, hr, hlow, hhigh⟩ := exists_region (hi.placed m hm) hi.used
  have := hok r hr
  omega

end Free

/-! ## Every run -/

section Runs

variable {pool : Mempool} {mem : Mem} {s : PoolRun}

theorem inv_of_reach (hregions : pool.regions.Pairwise Apart)
    (hused : ∀ blk ∈ pool.arena.blocks, blk.used ≤ blk.size)
    (hs : Reach (PoolRun.system pool mem) PoolRun.Allowed s) : Inv s := by
  refine hs.invariant Inv ⟨hregions, hused, fun _ hm => absurd hm List.not_mem_nil,
    List.Pairwise.nil, fun _ hm => absurd hm List.not_mem_nil⟩ ?_
  rintro s (⟨answer⟩ | ⟨msg⟩ | ⟨msg, i, byte⟩ | ⟨a, byte⟩) t hi hok hstep
  · cases hstep
    exact (hi.alloc hok).1
  · cases hstep
    exact hi.free hok
  · cases hstep
    exact hi.write byte hok
  · cases hstep
    exact hi.elsewhere byte hok

theorem used_init (block : Option ℕ) (array : Bool) (answers : List (Option ℕ)) :
    ∀ blk ∈ (Mempool.init block array answers).arena.blocks, blk.used ≤ blk.size := by
  intro blk hblk
  have hblk' : blk ∈ (Arena.blockNew 65536 block).toList := hblk
  rcases blockNew_cases 65536 block with hnone | ⟨addr, -, hsome⟩
  · rw [hnone] at hblk'
    cases hblk'
  · rw [hsome] at hblk'
    rw [List.mem_singleton.mp hblk']
    exact Nat.zero_le _

/-- In every run of a pool, freeing a live message takes the arena path exactly if the arena served
it, if and only if the first 8 bytes of a message the arena served still read as the size of a
message.  An allocation changes no byte of a live message, and a free none of another one.
SRC: pool.c:8-26, 42-89; arena.c:42-57; slab.c:81-133 -/
theorem free_path_right_iff {block : Option ℕ} {array : Bool} {answers : List (Option ℕ)}
    (hregions : (Mempool.init block array answers).regions.Pairwise Apart)
    (hs : Reach (PoolRun.system (Mempool.init block array answers) mem) PoolRun.Allowed s) :
    (∀ m ∈ s.live, (Mempool.freePath s.mem m.addr = .arena ↔ m.arena = true) ↔
      (m.arena = true → s.mem.loadNat m.addr 8 = msgSize)) ∧
    (∀ answer, s.Allowed (.alloc answer) → ∀ m ∈ s.live, ∀ i < msgSize,
      (s.alloc answer).mem (m.addr + i) = s.mem (m.addr + i)) ∧
    ∀ msg, s.Allowed (.free msg) → ∀ m ∈ s.live, m.addr ≠ msg → ∀ i < msgSize,
      (s.free msg).mem (m.addr + i) = s.mem (m.addr + i) := by
  have hi := inv_of_reach hregions (used_init block array answers) hs
  refine ⟨fun m hm => ?_, fun answer hok => (hi.alloc hok).2, fun msg hok m hm hne i hlt => ?_⟩
  · rw [freePath_eq_arena_iff hi hm]
    exact ⟨fun h harena => (h.mpr harena).2, fun h => ⟨And.left, fun harena => ⟨harena, h harena⟩⟩⟩
  · obtain ⟨m', hm', rfl⟩ := hok
    have h8 := eight_le_addr (hi.placed m' hm')
    have hfar := far_of_ne hi.apart hm' hm hne
    unfold Far at hfar
    unfold msgSize at hlt
    exact (free_facts m'.addr h8 s).2.2.1 _ (by omega)

end Runs

/-! ## A pool with one slab block -/

/-- INTERNAL: a pool whose slab got one block, at 1000, and whose arena starts at 2000. -/
def small : Mempool := Mempool.init (some 2000) true [some 1000]

theorem regions_small : small.regions.Pairwise Apart := by decide

/-- INTERNAL: two messages: the slab serves the first, the arena the second. -/
def twoMessages : List PoolOp := [.alloc none, .alloc none]

theorem reach_twoMessages (mem : Mem) :
    ∃ s, (PoolRun.system small mem).run (PoolRun.system small mem).init twoMessages = some s ∧
      Reach (PoolRun.system small mem) PoolRun.Allowed s ∧
      s.live = [⟨2032, true⟩, ⟨1008, false⟩] ∧ s.mem.loadNat 2032 8 = msgSize := by
  have hrun : (PoolRun.system small mem).run (PoolRun.system small mem).init twoMessages =
      some _ := rfl
  have hok : (PoolRun.system small mem).Meets PoolRun.Allowed (PoolRun.system small mem).init
      twoMessages := ⟨nofun, fun _ _ => ⟨nofun, fun _ _ => trivial⟩⟩
  exact ⟨_, hrun, Reach.of_run Reach.init hok hrun, rfl, Mem.loadNat_storeNat _ 2032 8 msgSize⟩

/-- A message of the arena that nobody wrote to is freed on the arena path. -/
theorem free_path_right_unwritten :
    ∃ s, Reach (PoolRun.system small fun _ => 0) PoolRun.Allowed s ∧ ⟨2032, true⟩ ∈ s.live ∧
      (Mempool.freePath s.mem 2032 = .arena ↔ true = true) := by
  obtain ⟨s, -, hs, hlive, hsize⟩ := reach_twoMessages fun _ => 0
  have hmem : (⟨2032, true⟩ : PoolMsg) ∈ s.live := by rw [hlive]; exact List.mem_cons_self
  exact ⟨s, hs, hmem, ((free_path_right_iff regions_small hs).1 ⟨2032, true⟩ hmem).mpr
    fun _ => hsize⟩

/-- **A message of the arena freed on the slab path**: the user wrote one byte into it. -/
theorem free_path_wrong :
    ∃ s, Reach (PoolRun.system small fun _ => 0) PoolRun.Allowed s ∧ ⟨2032, true⟩ ∈ s.live ∧
      Mempool.freePath s.mem 2032 = .slab := by
  obtain ⟨s, -, hs, hlive, -⟩ := reach_twoMessages fun _ => 0
  have hmem : (⟨2032, true⟩ : PoolMsg) ∈ s.live := by rw [hlive]; exact List.mem_cons_self
  have hok : s.Allowed (.write 2032 0 0) := ⟨⟨_, hmem, rfl⟩, by decide⟩
  have hstep : PoolRun.step s (.write 2032 0 0) =
      some { s with mem := update s.mem 2032 0 } := rfl
  refine ⟨_, Reach.step hs hok hstep, hmem, ?_⟩
  show Mempool.freePath (update s.mem 2032 0) 2032 = .slab
  -- the low byte of the echoed size is 0 now
  have hlow : Mem.loadNat (update s.mem 2032 0) 2032 8 ≠ msgSize := by
    have hsplit : Mem.loadNat (update s.mem 2032 0) 2032 8 = _ :=
      Mem.loadNat_add (update s.mem 2032 0) 2032 1 7
    have hbyte : Mem.loadNat (update s.mem 2032 0) 2032 1 = 0 := by
      simp [Mem.loadNat, Mem.load, leNat]
    rw [hbyte] at hsplit
    unfold msgSize
    omega
  unfold Mempool.freePath
  rw [if_neg (by decide)]
  dsimp only [arenaMsgHdr, Nat.reduceSub, Nat.reduceAdd]
  rw [if_neg fun h => hlow h.2]

end MsgBroker.Analysis.MempoolTags
