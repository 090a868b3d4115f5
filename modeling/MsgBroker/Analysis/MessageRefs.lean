import Mathlib.Algebra.Order.BigOperators.Group.Multiset
import MsgBroker.Analysis.MessageSpec

/-!
# Reference counts over all messages

The calls on messages in the terms of `MessageSpec`, and then the whole store: all references are
those of one message and the rest (`total_eq`), a call on a message keeps the rest, and so every
call keeps the heap in balance and every message what it was given (`Stored`).
-/

set_option autoImplicit false

namespace MsgBroker.Analysis.MessageRefs

open Lib Model Model.MsgStore
open Analysis.ChunkRealloc Analysis.MessageSpec

/-! ## One message -/

section Messages

variable {h h' : ChunkHeap} {R : Multiset ℕ} {m : Message} {g : Given} {bytes : List UInt8}

/-- INTERNAL: every part holds what it was given. -/
def HoldsMsg (h : ChunkHeap) (m : Message) (g : Given) : Prop :=
  ∀ part, Holds h (m.get part) (g part)

theorem get_refs_subset (m : Message) (part : MsgPart) : (m.get part).refs ⊆ m.refs := by
  intro a ha
  unfold Message.refs
  rw [Multiset.mem_add, Multiset.mem_add]
  cases part with
  | sphdr => exact Or.inl (Or.inl ha)
  | hdrs => exact Or.inl (Or.inr ha)
  | body => exact Or.inr ha

theorem HoldsMsg.frame (hh : HoldsMsg h m g) (hf : Frame h h' m.refs) : HoldsMsg h' m g :=
  fun part => (hh part).frame (hf.mono (get_refs_subset m part))

/-- INTERNAL: a message with nothing but a body. -/
def withBody (r : Chunkref) : Message := ⟨⟨0, .data []⟩, ⟨0, .data []⟩, r⟩

theorem refs_withBody (r : Chunkref) : (withBody r).refs = r.refs := by
  show (0 : Multiset ℕ) + 0 + r.refs = r.refs
  rw [zero_add, zero_add]

theorem holds_withBody {r : Chunkref} (hh : Holds h r bytes) :
    HoldsMsg h (withBody r) (bodyOnly bytes) := by
  intro part
  cases part with
  | sphdr => exact holds_of_size_zero rfl rfl
  | hdrs => exact holds_of_size_zero rfl rfl
  | body => exact hh

theorem refs_of_empty (hm : m.Empty) : m.refs = 0 := by
  have hsphdr : m.sphdr.refs = 0 := refs_of_size_zero (hm .sphdr)
  have hhdrs : m.hdrs.refs = 0 := refs_of_size_zero (hm .hdrs)
  have hbody : m.body.refs = 0 := refs_of_size_zero (hm .body)
  unfold Message.refs
  rw [hsphdr, hhdrs, hbody]
  rfl

theorem chunkrefInit_zero (h : ChunkHeap) : chunkrefInit 0 none h = (⟨0, .data []⟩, h) := rfl

theorem msgInit_eq (size : ℕ) (answer : BlockAnswer) (h : ChunkHeap) :
    msgInit size answer h =
      (withBody (chunkrefInit size answer h).1, (chunkrefInit size answer h).2) := rfl

theorem msgInit_spec (ho : Owns h R) {size : ℕ} {answer : BlockAnswer}
    (halloc : chunkrefMax < size → Allocates h size answer) :
    ∃ m h', msgInit size answer h = (m, h') ∧ Owns h' (m.refs + R) ∧
      HoldsMsg h' m (bodyOnly (blank size answer)) ∧ Frame h h' R := by
  obtain ⟨r, h', hinit, ho', hholds, -, hframe⟩ := init_spec ho halloc
  refine ⟨withBody r, h', ?_, ?_, holds_withBody hholds, hframe⟩
  · rw [msgInit_eq, hinit]
  · rw [refs_withBody]
    exact ho'

theorem msgInitData_short (hle : bytes.length ≤ chunkrefMax) (answer : BlockAnswer)
    (h : ChunkHeap) :
    msgInitData bytes answer h = some (withBody ⟨bytes.length, .data bytes⟩, h) := by
  have hinit : msgInit bytes.length answer h =
      (withBody ⟨bytes.length, .data (List.replicate bytes.length 0)⟩, h) := by
    rw [msgInit_eq]
    unfold chunkrefInit
    rw [if_pos hle]
  have hcopy : copyInto (List.replicate bytes.length 0) 0 bytes = some bytes := by
    rw [copyInto_zero (by rw [List.length_replicate]), List.drop_eq_nil_of_le
      (by rw [List.length_replicate]), List.append_nil]
  unfold msgInitData
  rw [hinit]
  dsimp only [withBody]
  by_cases hnil : bytes.length = 0
  · rw [if_pos hnil, List.length_eq_zero_iff.mp hnil]
    rfl
  · rw [if_neg hnil, hcopy]
    rfl

theorem msgInitData_spec (ho : Owns h R) {answer : BlockAnswer}
    (halloc : chunkrefMax < bytes.length → Allocates h bytes.length answer) :
    ∃ m h', msgInitData bytes answer h = some (m, h') ∧ Owns h' (m.refs + R) ∧
      HoldsMsg h' m (bodyOnly bytes) ∧ Frame h h' R := by
  by_cases hle : bytes.length ≤ chunkrefMax
  · refine ⟨_, h, msgInitData_short hle answer h, ?_, holds_withBody (holds_data h hle),
      Frame.refl h R⟩
    rw [refs_withBody, refs_of_le (r := ⟨bytes.length, .data bytes⟩) hle, zero_add]
    exact ho
  · -- the body is a new chunk, which is then filled
    have hlt := Nat.lt_of_not_le hle
    obtain ⟨r, h₁, hinit, ho₁, hholds, hfresh, hframe₁⟩ := init_spec ho halloc
    obtain ⟨-, new, fresh, rfl, hlen, -⟩ := halloc hlt
    have hblank : blank bytes.length (some (new, fresh)) = fresh := by
      unfold blank
      rw [if_neg hle]
      rfl
    rw [hblank] at hholds
    have hsize : r.size = bytes.length := hholds.size.trans hlen
    have hrlt : chunkrefMax < r.size := hsize ▸ hlt
    obtain ⟨a, hu, hview⟩ := hholds.heap hrlt
    have hrefs := refs_of_lt hrlt hu
    obtain ⟨h₂, hwrite, ho₂, hview₂, hother⟩ := write_spec ho₁ hview hlen.symm
    have hr : r = ⟨bytes.length, .chunk (some (a + chunkHdrSize))⟩ := by rw [← hsize, ← hu]
    have hdata : msgInitData bytes (some (new, fresh)) h = some (withBody r, h₂) := by
      have hmsg : msgInit bytes.length (some (new, fresh)) h = (withBody r, h₁) := by
        rw [msgInit_eq, hinit]
      unfold msgInitData
      rw [hmsg]
      dsimp only [withBody]
      rw [if_neg (by omega), hu]
      simp only [hwrite, bind, Option.bind_some, pure]
    refine ⟨_, h₂, hdata, ?_, holds_withBody ?_, ?_⟩
    · rw [refs_withBody]
      exact ho₂
    · rw [hr]
      exact holds_chunk hlt hview₂
    · intro b hb
      have hne : b ≠ a := by
        rintro rfl
        exact hfresh b (by rw [hrefs]; exact Multiset.mem_singleton_self b) hb
      rw [hother b hne]
      exact hframe₁ b hb

/-- INTERNAL: **`mb_msg_init_chunk`** on a chunk with one holder takes it over, or copies a short
one and frees it. -/
theorem msgInitChunk_spec {a : ℕ} (ho : Owns h (a ::ₘ R)) (hone : a ∉ R)
    (hview : view h a = some bytes) :
    ∃ m h', msgInitChunk (a + chunkHdrSize) h = some (m, h') ∧ Owns h' (m.refs + R) ∧
      HoldsMsg h' m (bodyOnly bytes) ∧ Frame h h' R := by
  obtain ⟨c, hc, rfl⟩ := Option.map_eq_some_iff.mp hview
  have hw := ho.whole a c hc
  have hsize : chunkSize (a + chunkHdrSize) h = some c.data.length := by
    rw [chunkSize_of_whole (by rw [chunkFromData_add]; exact hc) hw, hw.length]
  unfold msgInitChunk chunkrefInitChunk
  simp only [chunkrefInit_zero, hsize, bind, Option.bind_some, pure]
  by_cases hle : c.data.length ≤ chunkrefMax
  · obtain ⟨h', hfree, ho', hframe⟩ := free_spec ho
    have hread : readBytes (c.data.drop (c.offset + 0)) c.data.length = some c.data := by
      unfold readBytes
      rw [hw.offset, Nat.add_zero, List.drop_zero, if_pos (Nat.le_refl _), List.take_length]
    rw [if_pos hle]
    simp only [chunkFromData_add, hc, hread, hfree, Option.bind_some]
    refine ⟨withBody ⟨c.data.length, .data c.data⟩, h', rfl, ?_, holds_withBody (holds_data h' hle),
      hframe⟩
    rw [refs_withBody, refs_of_le (r := ⟨c.data.length, .data c.data⟩) hle, zero_add]
    exact ho'
  · have hlt := Nat.lt_of_not_le hle
    have hcount : (a ::ₘ R).count a = 1 := by
      rw [Multiset.count_cons_self, Multiset.count_eq_zero.mpr hone]
    obtain ⟨h₁, haddref, ho₁, hsame⟩ :=
      addref_spec ho (Multiset.mem_cons_self a R) (by rw [hcount]; decide)
    obtain ⟨h₂, hfree, ho₂, hframe⟩ := free_spec ho₁
    rw [if_neg hle]
    simp only [Nat.add_zero, haddref, hfree, Option.bind_some]
    refine ⟨withBody ⟨c.data.length, .chunk (some (a + chunkHdrSize))⟩, h₂, rfl, ?_,
      holds_withBody (holds_chunk hlt ?_), ?_⟩
    · rw [refs_withBody,
        refs_of_lt (r := ⟨c.data.length, .chunk (some (a + chunkHdrSize))⟩) hlt rfl,
        Multiset.singleton_add]
      exact ho₂
    · rw [hframe a (Multiset.mem_cons_self a R), hsame a]
      exact hview
    · intro b hb
      rw [hframe b (Multiset.mem_cons_of_mem hb), hsame b]

theorem msgTerm_spec (ho : Owns h (m.refs + R)) (hh : HoldsMsg h m g) :
    ∃ h', msgTerm m h = some (⟨.null, .null, .null⟩, h') ∧ Owns h' R ∧ Frame h h' R := by
  have hsplit : m.refs + R = m.body.refs + (m.hdrs.refs + (m.sphdr.refs + R)) := by
    unfold Message.refs
    ac_rfl
  rw [hsplit] at ho
  obtain ⟨h₁, hdrop₁, ho₁, hf₁⟩ := drop_spec ho (hh .body)
  have hhdrs : Holds h₁ m.hdrs (g .hdrs) :=
    (hh .hdrs).frame (hf₁.mono fun b hb => Multiset.mem_add.mpr (Or.inl hb))
  have hf₁' : Frame h h₁ (m.sphdr.refs + R) :=
    hf₁.mono fun b hb => Multiset.mem_add.mpr (Or.inr hb)
  obtain ⟨h₂, hdrop₂, ho₂, hf₂⟩ := drop_spec ho₁ hhdrs
  have hsphdr : Holds h₂ m.sphdr (g .sphdr) :=
    (hh .sphdr).frame ((hf₁'.trans hf₂).mono fun b hb => Multiset.mem_add.mpr (Or.inl hb))
  obtain ⟨h₃, hdrop₃, ho₃, hf₃⟩ := drop_spec ho₂ hsphdr
  refine ⟨h₃, ?_, ho₃, ?_⟩
  · simp only [msgTerm, hdrop₁, hdrop₂, hdrop₃, bind, Option.bind_some, pure]
  · exact ((hf₁'.trans hf₂).mono fun b hb => Multiset.mem_add.mpr (Or.inr hb)).trans hf₃

theorem msgCp_spec (ho : Owns h R) (hsub : m.refs ⊆ R) (hh : HoldsMsg h m g)
    (hcard : (m.refs + R).card < 2 ^ 32) :
    ∃ m' h', msgCp m h = some (m', h') ∧ Owns h' (m'.refs + R) ∧ HoldsMsg h' m' g ∧
      ∀ b, view h' b = view h b := by
  have hcard' : m.sphdr.refs.card + m.hdrs.refs.card + m.body.refs.card + R.card < 2 ^ 32 := by
    simpa [Message.refs] using hcard
  have hsubset : ∀ part, (m.get part).refs ⊆ R := fun part b hb =>
    hsub (get_refs_subset m part hb)
  have hsphdr : m.sphdr.refs ⊆ R := hsubset .sphdr
  have hhdrs : m.hdrs.refs ⊆ m.sphdr.refs + R := fun b hb =>
    Multiset.mem_add.mpr (Or.inr (hsubset .hdrs hb))
  have hbody : m.body.refs ⊆ m.hdrs.refs + (m.sphdr.refs + R) := fun b hb =>
    Multiset.mem_add.mpr (Or.inr (Multiset.mem_add.mpr (Or.inr (hsubset .body hb))))
  obtain ⟨r₁, h₁, hcp₁, ho₁, hrefs₁, hh₁, hsame₁⟩ := cp_spec ho hsphdr (hh .sphdr)
    (by rw [Multiset.card_add]; omega)
  obtain ⟨r₂, h₂, hcp₂, ho₂, hrefs₂, hh₂, hsame₂⟩ := cp_spec ho₁ hhdrs
    ((hh .hdrs).frame fun b _ => hsame₁ b) (by simp only [Multiset.card_add]; omega)
  obtain ⟨r₃, h₃, hcp₃, ho₃, hrefs₃, hh₃, hsame₃⟩ := cp_spec ho₂ hbody
    (((hh .body).frame fun b _ => hsame₁ b).frame fun b _ => hsame₂ b)
    (by simp only [Multiset.card_add]; omega)
  refine ⟨⟨r₁, r₂, r₃⟩, h₃, ?_, ?_, ?_, fun b => ?_⟩
  · simp only [msgCp, hcp₁, hcp₂, hcp₃, bind, Option.bind_some, pure]
  · have hsplit : (⟨r₁, r₂, r₃⟩ : Message).refs + R =
        m.body.refs + (m.hdrs.refs + (m.sphdr.refs + R)) := by
      unfold Message.refs
      rw [hrefs₁, hrefs₂, hrefs₃]
      ac_rfl
    rw [hsplit]
    exact ho₃
  · intro part
    cases part with
    | sphdr => exact (hh₁.frame fun b _ => hsame₂ b).frame fun b _ => hsame₃ b
    | hdrs => exact hh₂.frame fun b _ => hsame₃ b
    | body => exact hh₃
  · rw [hsame₃ b, hsame₂ b, hsame₁ b]

theorem msgMv_spec (hh : HoldsMsg h m g) :
    (msgMv m).1.refs = m.refs ∧ HoldsMsg h (msgMv m).1 g ∧
      (msgMv m).2 = ⟨.null, .null, .null⟩ := by
  obtain ⟨hrefs₁, hh₁, hnull₁⟩ := mv_spec (hh .sphdr)
  obtain ⟨hrefs₂, hh₂, hnull₂⟩ := mv_spec (hh .hdrs)
  obtain ⟨hrefs₃, hh₃, hnull₃⟩ := mv_spec (hh .body)
  refine ⟨congrArg₂ (· + ·) (congrArg₂ (· + ·) hrefs₁ hrefs₂) hrefs₃, ?_, ?_⟩
  · intro part
    cases part with
    | sphdr => exact hh₁
    | hdrs => exact hh₂
    | body => exact hh₃
  · show (⟨(chunkrefMv (m.get .sphdr)).2, (chunkrefMv (m.get .hdrs)).2,
      (chunkrefMv (m.get .body)).2⟩ : Message) = _
    rw [hnull₁, hnull₂, hnull₃]

theorem holds_null (h : ChunkHeap) : HoldsMsg h ⟨.null, .null, .null⟩ fun _ => [] := by
  intro part
  cases part <;> exact holds_of_size_zero rfl rfl

theorem refs_null : (⟨.null, .null, .null⟩ : Message).refs = 0 := rfl

/-- INTERNAL: the references of the other two parts. -/
def others (m : Message) : MsgPart → Multiset ℕ
  | .sphdr => m.hdrs.refs + m.body.refs
  | .hdrs => m.sphdr.refs + m.body.refs
  | .body => m.sphdr.refs + m.hdrs.refs

theorem refs_eq_get_add (m : Message) (part : MsgPart) :
    m.refs = (m.get part).refs + others m part := by
  cases part <;> simp only [Message.refs, Message.get, others] <;> ac_rfl

theorem refs_put (m : Message) (r : Chunkref) (part : MsgPart) :
    (m.put r part).refs = r.refs + others m part := by
  cases part <;> simp only [Message.refs, Message.put, others] <;> ac_rfl

theorem holds_put {r : Chunkref} {part : MsgPart} (hh : HoldsMsg h m g) (hr : Holds h' r bytes)
    (hf : Frame h h' (others m part)) :
    HoldsMsg h' (m.put r part) (Function.update g part bytes) := by
  have hkeep : ∀ q, q ≠ part → Holds h' ((m.put r part).get q) (g q) := by
    intro q hq
    have hget : (m.put r part).get q = m.get q := by
      cases q <;> cases part <;> first | rfl | exact absurd rfl hq
    have hsub : (m.get q).refs ⊆ others m part := by
      intro b hb
      cases q <;> cases part <;>
        first | exact absurd rfl hq | exact Multiset.mem_add.mpr (Or.inl hb) |
          exact Multiset.mem_add.mpr (Or.inr hb)
    rw [hget]
    exact (hh q).frame (hf.mono hsub)
  intro q
  by_cases hq : q = part
  · subst hq
    rw [Function.update_self]
    cases q <;> exact hr
  · rw [Function.update_of_ne hq]
    exact hkeep q hq

end Messages

/-! ## All messages -/

section Store

variable {ι : Type} [DecidableEq ι] [Fintype ι] {h h' : ChunkHeap} {msgs : ι → Option Message}
  {given : ι → Option Given} {i : ι} {m : Message} {g : Given}

/-- INTERNAL: the references of what is in a place. -/
def slotRefs (slot : Option Message) : Multiset ℕ := (slot.map Message.refs).getD 0

/-- INTERNAL: the references of all messages but one. -/
def rest (msgs : ι → Option Message) (i : ι) : Multiset ℕ :=
  ∑ j ∈ Finset.univ.erase i, slotRefs (msgs j)

/-- INTERNAL: all references. -/
def total (msgs : ι → Option Message) : Multiset ℕ := ∑ j, slotRefs (msgs j)

theorem total_eq (msgs : ι → Option Message) (i : ι) :
    total msgs = slotRefs (msgs i) + rest msgs i :=
  (Finset.add_sum_erase Finset.univ (fun j => slotRefs (msgs j)) (Finset.mem_univ i)).symm

theorem rest_update (msgs : ι → Option Message) (i : ι) (slot : Option Message) :
    rest (Function.update msgs i slot) i = rest msgs i := by
  apply Finset.sum_congr rfl
  intro j hj
  rw [Function.update_of_ne (Finset.ne_of_mem_erase hj)]

theorem total_update (msgs : ι → Option Message) (i : ι) (slot : Option Message) :
    total (Function.update msgs i slot) = slotRefs slot + rest msgs i := by
  rw [total_eq _ i, Function.update_self, rest_update]

theorem refs_subset_total (hm : msgs i = some m) : m.refs ⊆ total msgs := by
  intro a ha
  rw [total_eq msgs i, hm]
  exact Multiset.mem_add.mpr (Or.inl ha)

theorem refs_subset_rest {j : ι} (hj : j ≠ i) (hm : msgs j = some m) : m.refs ⊆ rest msgs i := by
  intro a ha
  refine Multiset.mem_sum.mpr ⟨j, Finset.mem_erase.mpr ⟨hj, Finset.mem_univ j⟩, ?_⟩
  rw [hm]
  exact ha

/-- INTERNAL: **the heap is in balance with all messages, and every message holds what it was
given.** -/
structure Stored (h : ChunkHeap) (msgs : ι → Option Message) (given : ι → Option Given) :
    Prop where
  owns : Owns h (total msgs)
  holds : ∀ i m, msgs i = some m → ∃ g, given i = some g ∧ HoldsMsg h m g

theorem Stored.update (hst : Stored h msgs given) (ho : Owns h' (m.refs + rest msgs i))
    (hh : HoldsMsg h' m g) (hf : Frame h h' (rest msgs i)) :
    Stored h' (Function.update msgs i (some m)) (Function.update given i (some g)) where
  owns := by
    rw [total_update]
    exact ho
  holds j mj hj := by
    by_cases hji : j = i
    · subst hji
      rw [Function.update_self] at hj ⊢
      cases hj
      exact ⟨g, rfl, hh⟩
    · rw [Function.update_of_ne hji] at hj ⊢
      obtain ⟨gj, hgj, hholds⟩ := hst.holds j mj hj
      exact ⟨gj, hgj, hholds.frame (hf.mono (refs_subset_rest hji hj))⟩

theorem total_of_vacant (hv : ∀ m, msgs i = some m → m.Empty) : total msgs = rest msgs i := by
  rw [total_eq msgs i]
  cases hm : msgs i with
  | none => exact zero_add _
  | some m =>
    show m.refs + _ = _
    rw [refs_of_empty (hv m hm), zero_add]

theorem Stored.init_slot (hst : Stored h msgs given) (hv : ∀ m, msgs i = some m → m.Empty)
    (ho : Owns h' (m.refs + total msgs)) (hh : HoldsMsg h' m g) (hf : Frame h h' (total msgs)) :
    Stored h' (Function.update msgs i (some m)) (Function.update given i (some g)) := by
  rw [total_of_vacant hv] at ho hf
  exact hst.update ho hh hf

/-- INTERNAL: what a call that is allowed does. -/
def Steps (h : ChunkHeap) (msgs : ι → Option Message) (given : ι → Option Given)
    (c : MsgCall ι) : Prop :=
  ∃ h' msgs', act h msgs c = some (h', msgs') ∧ Stored h' msgs' (give given c)

variable {answer : BlockAnswer} {bytes : List UInt8}

theorem Stored.init (hst : Stored h msgs given) (hv : ∀ m, msgs i = some m → m.Empty) {size : ℕ}
    (halloc : chunkrefMax < size → Allocates h size answer) :
    Steps h msgs given (.init i size answer) := by
  obtain ⟨m, h', hinit, ho, hh, hf⟩ := msgInit_spec hst.owns halloc
  exact ⟨h', Function.update msgs i (some m), by simp only [act, hinit], hst.init_slot hv ho hh hf⟩

theorem Stored.initData (hst : Stored h msgs given) (hv : ∀ m, msgs i = some m → m.Empty)
    (halloc : chunkrefMax < bytes.length → Allocates h bytes.length answer) :
    Steps h msgs given (.initData i bytes answer) := by
  obtain ⟨m, h', hinit, ho, hh, hf⟩ := msgInitData_spec hst.owns halloc
  refine ⟨h', Function.update msgs i (some m), ?_, hst.init_slot hv ho hh hf⟩
  simp only [act, hinit, bind, Option.bind_some, pure]

theorem Stored.initChunk (hst : Stored h msgs given) (hv : ∀ m, msgs i = some m → m.Empty)
    (halloc : Allocates h bytes.length answer) :
    Steps h msgs given (.initChunk i bytes answer) := by
  obtain ⟨hsize, new, fresh, rfl, hlen, hnew⟩ := halloc
  obtain ⟨h₁, halloc', ho₁, hat, hfresh, hf₁⟩ := alloc_spec hst.owns hsize hlen hnew
  have hview : view h₁ new = some fresh := by rw [view, hat]; rfl
  obtain ⟨h₂, hwrite, ho₂, hview₂, hother⟩ := write_spec ho₁ hview hlen.symm
  obtain ⟨m, h₃, hinit, ho₃, hh, hf₃⟩ := msgInitChunk_spec ho₂ hfresh hview₂
  refine ⟨h₃, Function.update msgs i (some m), ?_, hst.init_slot hv ho₃ hh fun b hb => ?_⟩
  · simp only [act, halloc', hwrite, hinit, bind, Option.bind_some, pure]
  · have hne : b ≠ new := fun heq => hfresh (heq ▸ hb)
    rw [hf₃ b hb, hother b hne, hf₁ b hb]

theorem Stored.cp (hst : Stored h msgs given) {dst src : ι}
    (hv : ∀ m, msgs dst = some m → m.Empty) (hm : msgs src = some m)
    (hcard : (m.refs + total msgs).card < 2 ^ 32) : Steps h msgs given (.cp dst src) := by
  obtain ⟨g, hg, hholds⟩ := hst.holds src m hm
  obtain ⟨m', h', hcp, ho, hh, hsame⟩ := msgCp_spec hst.owns (refs_subset_total hm) hholds hcard
  refine ⟨h', Function.update msgs dst (some m'), ?_, ?_⟩
  · simp only [act, hm, hcp, bind, Option.bind_some, pure]
  · show Stored h' _ (Function.update given dst (given src))
    rw [hg]
    exact hst.init_slot hv ho hh fun b _ => hsame b

theorem Stored.mv (hst : Stored h msgs given) {dst src : ι}
    (hv : ∀ m, msgs dst = some m → m.Empty) (hm : msgs src = some m) :
    Steps h msgs given (.mv dst src) := by
  obtain ⟨g, hg, hholds⟩ := hst.holds src m hm
  obtain ⟨hrefs, hh, hnull⟩ := msgMv_spec hholds
  -- the source is emptied first: this takes its references out of the balance
  have hsplit : Owns h (m.refs + rest msgs src) := by
    have howns := hst.owns
    rw [total_eq msgs src, hm] at howns
    exact howns
  refine ⟨h, Function.update (Function.update msgs dst (some (msgMv m).1)) src (some (msgMv m).2),
    by simp only [act, hm, bind, Option.bind_some, pure], ?_⟩
  show Stored h _ (Function.update (Function.update given dst (given src)) src (some fun _ => []))
  rw [hnull, hg]
  by_cases hds : dst = src
  · subst hds
    rw [Function.update_idem, Function.update_idem]
    rw [refs_of_empty (hv m hm)] at hsplit
    exact hst.update (g := fun _ => []) (by rw [refs_null]; exact hsplit) (holds_null h)
      (Frame.refl h _)
  · rw [Function.update_comm hds, Function.update_comm hds]
    have hvacant : ∀ m', Function.update msgs src (some ⟨.null, .null, .null⟩) dst = some m' →
        m'.Empty := by
      intro m' hm'
      rw [Function.update_of_ne hds] at hm'
      exact hv m' hm'
    have hrest : rest (Function.update msgs src (some ⟨.null, .null, .null⟩)) dst =
        rest msgs src := by
      rw [← total_of_vacant hvacant, total_update]
      exact zero_add _
    refine ⟨?_, fun j mj hj => ?_⟩
    · rw [total_update, hrest]
      show Owns h ((msgMv m).1.refs + _)
      rw [hrefs]
      exact hsplit
    · by_cases hjd : j = dst
      · subst hjd
        rw [Function.update_self] at hj ⊢
        cases hj
        exact ⟨g, rfl, hh⟩
      rw [Function.update_of_ne hjd] at hj ⊢
      by_cases hjs : j = src
      · subst hjs
        rw [Function.update_self] at hj ⊢
        cases hj
        exact ⟨_, rfl, holds_null h⟩
      · rw [Function.update_of_ne hjs] at hj ⊢
        exact hst.holds j mj hj

theorem Stored.set (hst : Stored h msgs given) (hm : msgs i = some m) {part : MsgPart}
    (halloc : chunkrefMax < bytes.length → Allocates h bytes.length answer) :
    Steps h msgs given (.set i part bytes answer) := by
  obtain ⟨g, hg, hholds⟩ := hst.holds i m hm
  have hsplit : Owns h ((m.get part).refs + (others m part + rest msgs i)) := by
    have howns := hst.owns
    rw [total_eq msgs i, hm] at howns
    show Owns h _
    rw [← add_assoc, ← refs_eq_get_add]
    exact howns
  obtain ⟨r, h', hset, ho, hh, hf⟩ := set_spec hsplit (hholds part) halloc
  refine ⟨h', Function.update msgs i (some (m.put r part)), ?_, ?_⟩
  · simp only [act, hm, hset, bind, Option.bind_some, pure]
  · show Stored h' _ (Function.update given i ((given i).map fun g => Function.update g part bytes))
    rw [hg]
    refine hst.update (g := Function.update g part bytes) ?_ ?_ ?_
    · rw [refs_put, add_assoc]
      exact ho
    · exact holds_put hholds hh (hf.mono fun b hb => Multiset.mem_add.mpr (Or.inl hb))
    · exact hf.mono fun b hb => Multiset.mem_add.mpr (Or.inr hb)

theorem Stored.term (hst : Stored h msgs given) (hm : msgs i = some m) :
    Steps h msgs given (.term i) := by
  obtain ⟨g, hg, hholds⟩ := hst.holds i m hm
  have hsplit : Owns h (m.refs + rest msgs i) := by
    have howns := hst.owns
    rw [total_eq msgs i, hm] at howns
    exact howns
  obtain ⟨h', hterm, ho, hf⟩ := msgTerm_spec hsplit hholds
  refine ⟨h', Function.update msgs i (some ⟨.null, .null, .null⟩), ?_, ?_⟩
  · simp only [act, hm, hterm, bind, Option.bind_some, pure]
  · refine hst.update (g := fun _ => []) ?_ (holds_null h') hf
    rw [refs_null, zero_add]
    exact ho

theorem steps_of_allowed {s : MsgStore ι} (hst : Stored s.heap s.msgs s.given) {c : MsgCall ι}
    (hok : Allowed s c) (hfresh : FreshInit s c) : Steps s.heap s.msgs s.given c := by
  cases c with
  | init i size answer => exact hst.init hfresh hok
  | initData i bytes answer => exact hst.initData hfresh hok
  | initChunk i bytes answer => exact hst.initChunk hfresh hok
  | cp dst src =>
    obtain ⟨hv, m, hm, hcard⟩ := hok
    exact hst.cp hv hm hcard
  | mv dst src =>
    obtain ⟨m, hm⟩ := Option.isSome_iff_exists.mp hok.2
    exact hst.mv hok.1 hm
  | set i part bytes answer =>
    obtain ⟨m, hm⟩ := Option.isSome_iff_exists.mp hok.1
    exact hst.set hm hok.2
  | term i =>
    obtain ⟨m, hm⟩ := Option.isSome_iff_exists.mp hok
    exact hst.term hm

omit [DecidableEq ι] in
theorem stored_init : Stored (fun _ => none) (fun _ : ι => none) (fun _ => none) where
  owns := by
    have hzero : total (fun _ : ι => none) = 0 := Finset.sum_eq_zero fun _ _ => rfl
    rw [hzero]
    exact ⟨balanced_zero, fun _ _ hc => nomatch hc⟩
  holds _ _ hm := nomatch hm

theorem stored_of_reach {s : MsgStore ι}
    (hs : Reach system (fun s c => Allowed s c ∧ FreshInit s c) s) :
    Stored s.heap s.msgs s.given := by
  refine hs.invariant (fun s => Stored s.heap s.msgs s.given) stored_init ?_
  rintro s c t hst ⟨hok, hfresh⟩ hstep
  obtain ⟨h', msgs', hact, hst'⟩ := steps_of_allowed hst hok hfresh
  obtain ⟨r, hr, rfl⟩ := Option.map_eq_some_iff.mp hstep
  rw [hact] at hr
  cases hr
  exact hst'

/-- After any calls that initialise messages only where there is none or an empty one: a chunk is
on the heap exactly while references to it exist, with their number as its count; every message
reads back what it was given; and no allowed call frees or touches a chunk that is not there.
SRC: chunkref.c:8-100; msg.c:6-72; chunk.c:23-98 -/
theorem message_references_conserved {s : MsgStore ι}
    (hs : Reach system (fun s c => Allowed s c ∧ FreshInit s c) s) :
    (∀ a, (s.heap a).map (fun c => c.refcount.toNat) =
      if s.refs.count a = 0 then none else some (s.refs.count a)) ∧
    (∀ i m, s.msgs i = some m → ∃ g, s.given i = some g ∧
      ∀ part, chunkrefBytes (m.get part) s.heap = some (g part)) ∧
    ∀ c, Allowed s c → FreshInit s c → (system.step s c).isSome = true := by
  have hst := stored_of_reach hs
  refine ⟨hst.owns.balanced, fun i m hm => ?_, fun c hok hfresh => ?_⟩
  · obtain ⟨g, hg, hholds⟩ := hst.holds i m hm
    exact ⟨g, hg, fun part => (hholds part).chunkrefBytes hst.owns.whole⟩
  · obtain ⟨h', msgs', hact, -⟩ := steps_of_allowed hst hok hfresh
    show (Option.map _ (act s.heap s.msgs c)).isSome = true
    rw [hact]
    rfl

end Store

/-! ## A shared body and a lost one -/

/-- INTERNAL: a body that needs a chunk. -/
def longBody : List UInt8 := List.replicate 65 7

/-- INTERNAL: the block it is put into. -/
def block : BlockAnswer := some (100, List.replicate 65 0)

theorem allocates_block : Allocates (fun _ => none) longBody.length block :=
  ⟨by decide, 100, List.replicate 65 0, rfl, rfl, rfl⟩

/-- A message, its copy, and the first one terminated: the copy keeps the chunk. -/
theorem message_references_shared :
    ∃ s : MsgStore Bool, Reach system (fun s c => Allowed s c ∧ FreshInit s c) s ∧
      s.refs.count 100 = 1 ∧
      (s.heap 100).map (fun c => c.refcount.toNat) =
        if s.refs.count 100 = 0 then none else some (s.refs.count 100) := by
  have h₁ : Reach system (fun (s : MsgStore Bool) c => Allowed s c ∧ FreshInit s c) _ :=
    Reach.step (l := .initData true longBody block) Reach.init
      ⟨fun _ => allocates_block, nofun⟩ rfl
  have h₂ : Reach system (fun (s : MsgStore Bool) c => Allowed s c ∧ FreshInit s c) _ :=
    Reach.step (l := .cp false true) h₁ ⟨⟨nofun, _, rfl, by decide⟩, trivial⟩ rfl
  have h₃ : Reach system (fun (s : MsgStore Bool) c => Allowed s c ∧ FreshInit s c) _ :=
    Reach.step (l := .term true) h₂ ⟨rfl, trivial⟩ rfl
  exact ⟨_, h₃, by decide, (message_references_conserved h₃).1 100⟩

/-- **A message initialised over another one loses its chunk**: the count is 1 and no reference is
left. -/
theorem chunk_lost_by_init :
    ∃ s : MsgStore Unit, Reach system Allowed s ∧ s.refs.count 100 = 0 ∧
      (s.heap 100).map (fun c => c.refcount.toNat) = some 1 := by
  have h₁ : Reach system (Allowed (ι := Unit)) _ :=
    Reach.step (l := .initData () longBody block) Reach.init (fun _ => allocates_block) rfl
  have h₂ : Reach system (Allowed (ι := Unit)) _ :=
    Reach.step (l := .init () 0 none) h₁ (fun hlt => absurd hlt (by decide)) rfl
  exact ⟨_, h₂, by decide, rfl⟩

end MsgBroker.Analysis.MessageRefs
