import MsgBroker.Analysis.MempoolTags
import MsgBroker.Model.ArenaRun

/-!
# The pieces of an arena do not overlap

The blocks of an arena are apart from each other, and what was handed out since the last reset lies
in the used parts of the blocks without overlap (`Inv`).
-/

set_option autoImplicit false

namespace MsgBroker.Analysis.ArenaRegions

open Lib Model
open Analysis.MempoolTags (Serves allocLoop_cases blockNew_cases take_cases take_eq)

/-- INTERNAL: the blocks have room for something and are apart, and what was handed out lies in
their used parts. -/
structure Inv (s : ArenaRun) : Prop where
  blockSize : 0 < s.arena.blockSize
  sizes : ∀ blk ∈ s.arena.blocks, 0 < blk.size
  used : ∀ blk ∈ s.arena.blocks, blk.used ≤ blk.size
  apart : (s.arena.blocks.map ArenaBlock.extent).Pairwise Apart
  placed : ∀ r ∈ s.regions, ∃ blk ∈ s.arena.blocks,
    blk.data ≤ r.1 ∧ r.1 + r.2 ≤ blk.data + blk.used
  disjoint : s.regions.Pairwise Apart

variable {blocks pre post : List ArenaBlock} {blk : ArenaBlock} {bs size : ℕ}
  {regions : List (ℕ × ℕ)}

/-! ## One call -/

theorem Inv.extend (h : Inv ⟨⟨blocks, bs⟩, regions⟩) (hsize : 0 < blk.size)
    (hused : blk.used ≤ blk.size) (hapart : ∀ b ∈ blocks, Apart b.extent blk.extent) :
    Inv ⟨⟨blocks ++ [blk], bs⟩, regions⟩ where
  blockSize := h.blockSize
  sizes := List.forall_mem_append.mpr ⟨h.sizes, List.forall_mem_singleton.mpr hsize⟩
  used := List.forall_mem_append.mpr ⟨h.used, List.forall_mem_singleton.mpr hused⟩
  apart := by
    rw [List.map_append, List.pairwise_append]
    refine ⟨h.apart, List.pairwise_singleton _ _, ?_⟩
    intro e he e' he'
    obtain ⟨b, hb, rfl⟩ := List.mem_map.mp he
    obtain rfl : e' = blk.extent := List.mem_singleton.mp he'
    exact hapart b hb
  placed := by
    intro r hr
    obtain ⟨b, hb, hplace⟩ := h.placed r hr
    exact ⟨b, List.mem_append_left _ hb, hplace⟩
  disjoint := h.disjoint

theorem eq_or_apart (h : ((pre ++ blk :: post).map ArenaBlock.extent).Pairwise Apart)
    {b : ArenaBlock} (hb : b ∈ pre ++ blk :: post) : b = blk ∨ Apart blk.extent b.extent := by
  have hsymm : ∀ {e e' : ℕ × ℕ}, Apart e e' → Apart e' e := Or.symm
  rw [List.map_append, List.map_cons, List.pairwise_middle hsymm, List.pairwise_cons] at h
  rcases List.mem_append.mp hb with hpre | hpost
  · exact Or.inr (h.1 _ (List.mem_append_left _ (List.mem_map_of_mem hpre)))
  · rcases List.mem_cons.mp hpost with rfl | hpost
    · exact Or.inl rfl
    · exact Or.inr (h.1 _ (List.mem_append_right _ (List.mem_map_of_mem hpost)))

theorem Inv.apart_piece (h : Inv ⟨⟨pre ++ blk :: post, bs⟩, regions⟩)
    (hfits : blk.used + size ≤ blk.size) {r : ℕ × ℕ} (hr : r ∈ regions) :
    Apart r (blk.data + blk.used, size) := by
  obtain ⟨b, hb, hlow, hhigh⟩ := h.placed r hr
  have hused := h.used b hb
  unfold ArenaBlock.data at hlow hhigh
  rcases eq_or_apart h.apart hb with rfl | hapart
  · exact Or.inl hhigh
  · -- the two pieces lie in blocks that are apart
    unfold Apart ArenaBlock.extent at hapart
    unfold Apart ArenaBlock.data
    omega

theorem Inv.take (h : Inv ⟨⟨pre ++ blk :: post, bs⟩, regions⟩)
    (hfits : blk.used + size ≤ blk.size) :
    Inv ⟨⟨pre ++ { blk with used := blk.used + size } :: post, bs⟩,
      regions ++ [(blk.data + blk.used, size)]⟩ := by
  have hmem : ∀ b ∈ pre ++ { blk with used := blk.used + size } :: post,
      b = { blk with used := blk.used + size } ∨ b ∈ pre ++ blk :: post := by
    intro b hb
    simp only [List.mem_append, List.mem_cons] at hb ⊢
    tauto
  have hblk : blk ∈ pre ++ blk :: post := List.mem_append_right _ List.mem_cons_self
  refine ⟨h.blockSize, ?_, ?_, ?_, ?_, ?_⟩
  · intro b hb
    rcases hmem b hb with rfl | hb
    · exact h.sizes blk hblk
    · exact h.sizes b hb
  · intro b hb
    rcases hmem b hb with rfl | hb
    · exact hfits
    · exact h.used b hb
  · have hapart := h.apart
    rw [List.map_append, List.map_cons] at hapart ⊢
    exact hapart
  · intro r hr
    rcases List.mem_append.mp hr with hold | hnew
    · obtain ⟨b, hb, hlow, hhigh⟩ := h.placed r hold
      rcases List.mem_append.mp hb with hpre | hpost
      · exact ⟨b, List.mem_append_left _ hpre, hlow, hhigh⟩
      rcases List.mem_cons.mp hpost with rfl | hpost
      · refine ⟨_, List.mem_append_right _ List.mem_cons_self, hlow, ?_⟩
        show r.1 + r.2 ≤ b.data + (b.used + size)
        omega
      · exact ⟨b, List.mem_append_right _ (List.mem_cons_of_mem _ hpost), hlow, hhigh⟩
    · obtain rfl := List.mem_singleton.mp hnew
      refine ⟨_, List.mem_append_right _ List.mem_cons_self, ?_, ?_⟩
      · exact Nat.le_add_right blk.data blk.used
      · exact Nat.le_of_eq (Nat.add_assoc blk.data blk.used size)
  · rw [List.pairwise_append]
    refine ⟨h.disjoint, List.pairwise_singleton _ _, ?_⟩
    intro r hr r' hr'
    obtain rfl := List.mem_singleton.mp hr'
    exact h.apart_piece hfits hr

theorem Inv.alloc {s : ArenaRun} (h : Inv s) {answer : Option ℕ}
    (hok : s.Allowed (.alloc size answer)) : Inv (s.alloc size answer) := by
  obtain ⟨⟨blocks, bs⟩, regions⟩ := s
  rcases allocLoop_cases bs size answer blocks with hnone | ⟨pre, blk, post, hserves, hfits, heq⟩
  · simpa only [ArenaRun.alloc, Arena.alloc, hnone, Option.map_none, Option.toList_none,
      List.append_nil] using h
  · have hblocks : Inv ⟨⟨pre ++ blk :: post, bs⟩, regions⟩ := by
      rcases hserves with rfl | ⟨rfl, rfl, addr, hanswer, rfl⟩
      · exact h
      · -- the block is new
        have hpos := h.blockSize
        have hnew : bs ≤ Arena.newSize bs size := by
          unfold Arena.newSize
          split <;> omega
        exact h.extend (Nat.lt_of_lt_of_le hpos hnew) (Nat.zero_le _) (hok addr hanswer)
    simpa only [ArenaRun.alloc, Arena.alloc, heq, Option.map_some, Option.toList_some]
      using hblocks.take hfits

theorem extent_reset (arena : Arena) :
    arena.reset.blocks.map ArenaBlock.extent = arena.blocks.map ArenaBlock.extent := by
  rw [Arena.reset, List.map_map]
  rfl

theorem Inv.reset {s : ArenaRun} (h : Inv s) : Inv ⟨s.arena.reset, []⟩ where
  blockSize := h.blockSize
  sizes := List.forall_mem_map.mpr h.sizes
  used := List.forall_mem_map.mpr fun _ _ => Nat.zero_le _
  apart := by
    rw [extent_reset]
    exact h.apart
  placed _ hr := absurd hr List.not_mem_nil
  disjoint := List.Pairwise.nil

/-! ## Any calls -/

theorem inv_init (blockSize : ℕ) (answer : Option ℕ) :
    Inv ⟨.init blockSize answer, []⟩ := by
  have hpos : 0 < if 0 < blockSize then blockSize else 4096 := by
    split <;> omega
  have hempty : Inv ⟨⟨[], if 0 < blockSize then blockSize else 4096⟩, []⟩ :=
    ⟨hpos, fun _ hb => absurd hb List.not_mem_nil, fun _ hb => absurd hb List.not_mem_nil,
      List.Pairwise.nil, fun _ hr => absurd hr List.not_mem_nil, List.Pairwise.nil⟩
  rw [Arena.init]
  rcases blockNew_cases (if 0 < blockSize then blockSize else 4096) answer with
    hnone | ⟨addr, -, hnew⟩
  · rw [hnone]
    exact hempty
  · rw [hnew]
    exact hempty.extend hpos (Nat.zero_le _) fun _ hb => absurd hb List.not_mem_nil

theorem inv_of_reach {blockSize : ℕ} {answer : Option ℕ} {s : ArenaRun}
    (h : Reach (ArenaRun.system blockSize answer) ArenaRun.Allowed s) : Inv s := by
  apply h.invariant Inv (inv_init blockSize answer)
  intro s op t hinv hok hstep
  cases op with
  | alloc size answer =>
    obtain rfl := Option.some.inj hstep
    exact hinv.alloc hok
  | reset =>
    obtain rfl := Option.some.inj hstep
    exact hinv.reset

/-! ## All of the memory after a reset -/

theorem allocLoop_fresh (hpre : ∀ b ∈ pre, b.used = b.size) (hsize : 0 < blk.size)
    (hused : blk.used = 0) :
    Arena.allocLoop bs blk.size none (pre ++ blk :: post) =
      (some blk.data, pre ++ { blk with used := blk.size } :: post) := by
  induction pre with
  | nil =>
    have hfits : blk.used + blk.size ≤ blk.size := by omega
    have htake := take_eq hfits
    rw [hused, Nat.zero_add, Nat.add_zero] at htake
    cases post <;> simp only [Arena.allocLoop, htake, List.nil_append]
  | cons b pre ih =>
    obtain ⟨hb, hpre⟩ := List.forall_mem_cons.mp hpre
    have hfull : Arena.take blk.size b = none := by
      rcases take_cases blk.size b with hfits | hfull
      · omega
      · exact hfull
    rw [List.cons_append, Arena.allocLoop, hfull, ih hpre]
    · rfl
    · simp

theorem run_fresh {M : System ArenaRun ArenaOp} (hM : M.step = ArenaRun.step)
    (hpre : ∀ b ∈ pre, b.used = b.size) (hpost : ∀ b ∈ post, 0 < b.size ∧ b.used = 0)
    (bs : ℕ) (regions : List (ℕ × ℕ)) :
    M.run ⟨⟨pre ++ post, bs⟩, regions⟩ (post.map fun b => .alloc b.size none) =
      some ⟨⟨pre ++ post.map fun b => { b with used := b.size }, bs⟩,
        regions ++ post.map fun b => (b.data, b.size)⟩ := by
  induction post generalizing pre regions with
  | nil => simp only [List.map_nil, System.run, List.append_nil]
  | cons b post ih =>
    obtain ⟨⟨hsize, hused⟩, hpost⟩ := List.forall_mem_cons.mp hpost
    have hstep : M.step ⟨⟨pre ++ b :: post, bs⟩, regions⟩ (.alloc b.size none) =
        some ⟨⟨pre ++ { b with used := b.size } :: post, bs⟩, regions ++ [(b.data, b.size)]⟩ := by
      rw [hM]
      simp only [ArenaRun.step, ArenaRun.alloc, Arena.alloc, allocLoop_fresh hpre hsize hused,
        Option.map_some, Option.toList_some]
    have hfull : ∀ c ∈ pre ++ [{ b with used := b.size }], c.used = c.size :=
      List.forall_mem_append.mpr ⟨hpre, List.forall_mem_singleton.mpr rfl⟩
    rw [List.map_cons, System.run_cons hstep, List.append_cons, ih hfull hpost]
    simp only [List.map_cons, List.append_assoc, List.cons_append, List.nil_append]

/-- Whatever calls were made on an arena, with whatever answers of `mb_alloc`:

* each piece handed out since the last reset lies in the data area of one block;
* two of the pieces never overlap, empty ones included;
* a reset keeps every block, at its address and with its size, and makes it unused;
* the arena can then hand out the whole data area of each block again, without new memory.

SRC: arena.c:8-66 -/
theorem arena_regions_apart {blockSize : ℕ} {answer : Option ℕ} {s : ArenaRun}
    (h : Reach (ArenaRun.system blockSize answer) ArenaRun.Allowed s) :
    (∀ r ∈ s.regions, ∃ blk ∈ s.arena.blocks,
        blk.data ≤ r.1 ∧ r.1 + r.2 ≤ blk.data + blk.size) ∧
      s.regions.Pairwise Apart ∧
      s.arena.reset.blocks = s.arena.blocks.map (fun blk => ⟨blk.addr, 0, blk.size⟩) ∧
      ∃ t, (ArenaRun.system blockSize answer).run s
          (.reset :: s.arena.blocks.map fun blk => .alloc blk.size none) = some t ∧
        t.regions = s.arena.blocks.map fun blk => (blk.data, blk.size) := by
  have hinv := inv_of_reach h
  refine ⟨?_, hinv.disjoint, rfl, ?_⟩
  · intro r hr
    obtain ⟨blk, hblk, hlow, hhigh⟩ := hinv.placed r hr
    have hused := hinv.used blk hblk
    exact ⟨blk, hblk, hlow, by omega⟩
  · have hfresh : ∀ b ∈ s.arena.reset.blocks, 0 < b.size ∧ b.used = 0 :=
      List.forall_mem_map.mpr fun b hb => ⟨hinv.sizes b hb, rfl⟩
    have hreset : (ArenaRun.system blockSize answer).step s .reset =
      some ⟨⟨[] ++ s.arena.reset.blocks, s.arena.blockSize⟩, []⟩ := rfl
    have hrun := run_fresh (M := ArenaRun.system blockSize answer) rfl
      (fun b hb => absurd hb List.not_mem_nil) hfresh s.arena.blockSize []
    have hcalls : (s.arena.blocks.map fun blk => ArenaOp.alloc blk.size none) =
        s.arena.reset.blocks.map fun blk => .alloc blk.size none := by
      rw [Arena.reset, List.map_map]
      rfl
    rw [System.run_cons hreset, hcalls]
    refine ⟨_, hrun, ?_⟩
    simp only [Arena.reset, List.nil_append, List.map_map]
    rfl

/-- INTERNAL: in blocks of 16 bytes, pieces of 10 and 10 bytes need two blocks, one of 4 bytes goes
back to the first, and one of 40 bytes gets a block of its own; the last block is refused. -/
def fourPieces : List ArenaOp :=
  [.alloc 10 none, .alloc 10 (some 1000), .alloc 4 none, .alloc 40 (some 2000), .alloc 50 none]

theorem arena_regions_apart_fourPieces :
    ∃ s, (ArenaRun.system 16 (some 100)).run ⟨.init 16 (some 100), []⟩ fourPieces = some s ∧
      s.regions = [(124, 10), (1024, 10), (134, 4), (2024, 40)] ∧ s.regions.Pairwise Apart := by
  refine ⟨_, rfl, by decide, ?_⟩
  have hmeets : (ArenaRun.system 16 (some 100)).Meets ArenaRun.Allowed
      ⟨.init 16 (some 100), []⟩ fourPieces := by
    decide
  exact (arena_regions_apart (Reach.init.of_run hmeets rfl)).2.1

end MsgBroker.Analysis.ArenaRegions
