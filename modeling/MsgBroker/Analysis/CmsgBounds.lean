import MsgBroker.Analysis.MsghdrSpec

/-!
# What `mb_sendmsg` reads of a control buffer

`mb_cmsg_nxthdr_` compares `cmsg_len` with the rest of the buffer when it looks for the next header,
and hands out no header behind one that is too long.
-/

set_option autoImplicit false

namespace MsgBroker.Analysis.Cmsg

open Lib Model

/-- The range lies in the control buffer. -/
def InsideControl (mhdr : Msghdr) (r : ℕ × ℕ) : Prop :=
  ∃ control, mhdr.control = some control ∧ control ≤ r.1 ∧
    r.1 + r.2 ≤ control + mhdr.controllen.toNat

/-- `cmsg_len` of the header at `c` extends past the end of the control buffer. -/
def Overlong (mem : Mem) (mhdr : Msghdr) (c : ℕ) : Prop :=
  mhdr.control.getD 0 + mhdr.controllen.toNat < c + (cmsghdrAt mem c).len.toNat

/-! ## One header -/

/-- What is copied for the header at `c`. -/
def sphdrRange (mem : Mem) (c : ℕ) : Option (ℕ × ℕ) :=
  if (cmsghdrAt mem c).isSpHdr ∧ cmsghdrSize.toNat < (cmsghdrAt mem c).len.toNat then
    some (cmsgData c, (cmsghdrAt mem c).len.toNat - cmsghdrSize.toNat)
  else none

/-- The control message at `c` does not make the call fail: if it is of type `SP_HDR`, it is not
shorter than a header, and there is memory for its bytes. -/
def Copies (mem : Mem) (alloc : ℕ → Bool) (c : ℕ) : Prop :=
  (cmsghdrAt mem c).isSpHdr → cmsghdrSize.toNat ≤ (cmsghdrAt mem c).len.toNat ∧
    ((cmsghdrAt mem c).len.toNat - cmsghdrSize.toNat ≤ chunkrefMax ∨
      chunkAllocates ((cmsghdrAt mem c).len.toNat - cmsghdrSize.toNat) (alloc c) = true)

/-- The bytes of the last range, or none. -/
def lastBytes (mem : Mem) (copied : Ranges) : List UInt8 :=
  (copied.getLast?.map fun r => mem.load r.1 r.2).getD []

section Header

variable {mem : Mem} {mhdr : Msghdr} {alloc : ℕ → Bool} {c : ℕ} {s t : SphdrCopy}

theorem cmsgLen_zero : cmsgLen 0 = 16 := by decide

theorem toNat_hdrlen {len : UInt64} (hlen : ¬ len < cmsgLen 0) :
    (len - cmsgLen 0).toNat = len.toNat - cmsghdrSize.toNat := by
  rw [cmsgLen_zero] at hlen ⊢
  exact UInt64.toNat_sub_of_le _ _ (UInt64.not_lt.mp hlen)

/-- INTERNAL: what a round of the loop over the control messages copies. -/
theorem copySphdr_eq_ok (h : copySphdr mem alloc c s = .ok t) :
    Copies mem alloc c ∧ t.copied = s.copied ++ (sphdrRange mem c).toList ∧
      (s.sphdr = lastBytes mem s.copied → t.sphdr = lastBytes mem t.copied) := by
  simp only [copySphdr] at h
  unfold sphdrRange Copies
  split at h
  · rename_i hsp
    split at h
    · cases h
    · rename_i hlen
      have hle : cmsghdrSize.toNat ≤ (cmsghdrAt mem c).len.toNat := by
        rwa [cmsgLen_zero, UInt64.not_lt, UInt64.le_iff_toNat_le] at hlen
      rw [toNat_hdrlen hlen] at h
      split at h
      · rename_i hpos
        split at h
        · rename_i hroom
          obtain rfl := Except.ok.inj h
          rw [if_pos ⟨hsp, by omega⟩]
          exact ⟨fun _ => ⟨hle, hroom⟩, rfl, fun _ => by simp [lastBytes]⟩
        · cases h
      · rename_i hpos
        cases h
        rw [if_neg fun hcon => hpos (by omega)]
        exact ⟨fun _ => ⟨hle, Or.inl (by omega)⟩, (List.append_nil _).symm, id⟩
  · rename_i hsp
    cases h
    rw [if_neg fun hcon => hsp hcon.1]
    exact ⟨fun hcon => absurd hcon hsp, (List.append_nil _).symm, id⟩

/-- INTERNAL: a round that fails copies nothing. -/
theorem copySphdr_eq_error {e : Errno × Ranges} (h : copySphdr mem alloc c s = .error e) :
    ¬ Copies mem alloc c ∧ e.2 = s.copied := by
  simp only [copySphdr] at h
  unfold Copies
  split at h
  · rename_i hsp
    split at h
    · rename_i hlen
      cases h
      rw [cmsgLen_zero, UInt64.lt_iff_toNat_lt] at hlen
      exact ⟨fun hcopies => absurd (hcopies hsp).1 (Nat.not_le.mpr hlen), rfl⟩
    · rename_i hlen
      rw [toNat_hdrlen hlen] at h
      split at h
      · split at h
        · cases h
        · rename_i hroom
          cases h
          exact ⟨fun hcopies => hroom (hcopies hsp).2, rfl⟩
      · cases h
  · cases h

theorem insideControl_iff (hc : InControl mhdr c) {r : ℕ × ℕ} (hr : sphdrRange mem c = some r) :
    InsideControl mhdr r ↔ ¬ Overlong mem mhdr c := by
  obtain ⟨control, off, hcontrol, rfl, -, hfits⟩ := hc
  unfold sphdrRange at hr
  split at hr
  · rename_i hcopied
    cases hr
    unfold InsideControl Overlong cmsgData
    rw [hcontrol, Option.getD_some]
    have hlen := hcopied.2
    constructor
    · rintro ⟨_, ⟨rfl⟩, -, hend⟩
      omega
    · intro hend
      exact ⟨control, rfl, by omega, by omega⟩
  · cases hr

theorem sphdrRange_of_overlong (hc : InControl mhdr c) (hsp : (cmsghdrAt mem c).isSpHdr)
    (hlong : Overlong mem mhdr c) : ∃ n, sphdrRange mem c = some (cmsgData c, n) := by
  obtain ⟨control, off, hcontrol, rfl, -, hfits⟩ := hc
  unfold Overlong at hlong
  rw [hcontrol, Option.getD_some] at hlong
  unfold sphdrRange
  rw [if_pos ⟨hsp, by omega⟩]
  exact ⟨_, rfl⟩

theorem sphdrRange_fst {r : ℕ × ℕ} (hr : sphdrRange mem c = some r) :
    r.1 = cmsgData c ∧ (cmsghdrAt mem c).isSpHdr := by
  unfold sphdrRange at hr
  split at hr
  · rename_i hcopied
    cases hr
    exact ⟨rfl, hcopied.1⟩
  · cases hr

end Header

/-! ## All headers -/

section Headers

variable {mem : Mem} {mhdr : Msghdr} {alloc : ℕ → Bool}

/-- INTERNAL: what the loop over the control messages copies if it does not fail. -/
theorem foldBody_copySphdr {hs : List ℕ} {s t : SphdrCopy}
    (h : foldBody (copySphdr mem alloc) hs s = .ok t) :
    (∀ c ∈ hs, Copies mem alloc c) ∧ t.copied = s.copied ++ hs.filterMap (sphdrRange mem) ∧
      (s.sphdr = lastBytes mem s.copied → t.sphdr = lastBytes mem t.copied) := by
  induction hs generalizing s with
  | nil =>
    cases h
    exact ⟨List.forall_mem_nil _, (List.append_nil _).symm, id⟩
  | cons c hs ih =>
    rw [foldBody] at h
    cases hc : copySphdr mem alloc c s with
    | error e => rw [hc] at h; cases h
    | ok s' =>
      rw [hc] at h
      obtain ⟨hcopies, hcopied, hsphdr⟩ := ih h
      obtain ⟨hcopies', hcopied', hsphdr'⟩ := copySphdr_eq_ok hc
      refine ⟨List.forall_mem_cons.mpr ⟨hcopies', hcopies⟩, ?_, fun hs => hsphdr (hsphdr' hs)⟩
      rw [hcopied, hcopied', List.append_assoc, List.filterMap_cons]
      cases sphdrRange mem c with
      | none => rfl
      | some r => rfl

theorem not_overlong_of_next {pre post : List ℕ} {c d : ℕ}
    (h : cmsgHeaders mem mhdr = pre ++ c :: d :: post) : ¬ Overlong mem mhdr c := by
  have hmem : c ∈ cmsgHeaders mem mhdr := by
    rw [h]
    exact List.mem_append_right _ List.mem_cons_self
  obtain ⟨control, off, hcontrol, rfl, -, hfits⟩ := inControl_of_mem mem mhdr hmem
  obtain ⟨-, hd, hin⟩ := (nexthdr_eq_some_iff hcontrol (Nat.le_add_right _ _) (by omega)).mp
    (next_of_trail_eq _ h)
  unfold Overlong
  rw [hcontrol, Option.getD_some]
  omega

theorem getLast_of_overlong {c : ℕ} (hc : c ∈ cmsgHeaders mem mhdr)
    (hlong : Overlong mem mhdr c) : (cmsgHeaders mem mhdr).getLast? = some c := by
  obtain ⟨pre, post, h⟩ := List.append_of_mem hc
  cases post with
  | nil => rw [h, List.getLast?_concat]
  | cons d post => exact absurd hlong (not_overlong_of_next h)

/-- INTERNAL: in front of another header no control message is too long. -/
theorem not_overlong_before {pre post : List ℕ} {c d : ℕ}
    (h : cmsgHeaders mem mhdr = pre ++ c :: post) (hd : d ∈ pre) : ¬ Overlong mem mhdr d := by
  -- Behind `d` there is another header, at the latest `c`.
  obtain ⟨pre', post', rfl⟩ := List.append_of_mem hd
  cases post' with
  | nil =>
    have hsplit : cmsgHeaders mem mhdr = pre' ++ d :: c :: post := by simp [h]
    exact not_overlong_of_next hsplit
  | cons e post' =>
    have hsplit : cmsgHeaders mem mhdr = pre' ++ d :: e :: (post' ++ c :: post) := by simp [h]
    exact not_overlong_of_next hsplit

end Headers

/-! ## The whole call -/

section Call

variable {mem : Mem} {mhdr : Msghdr}

/-- The promise of a control buffer: only its own bytes are copied into the `sphdr`, and a control
message that extends past its end is rejected or ignored, so that nothing of it is copied. -/
def ReadsControlOnly (mem : Mem) (mhdr : Msghdr) (copied : Ranges) : Prop :=
  (∀ r ∈ copied, InsideControl mhdr r) ∧
    ∀ c ∈ cmsgHeaders mem mhdr, Overlong mem mhdr c → ∀ r ∈ copied, r.1 ≠ cmsgData c

/-- INTERNAL: what is copied of some of the headers is inside if none of those is too long. -/
theorem readsControlOnly_of_short {hs : List ℕ} (hsub : ∀ c ∈ hs, c ∈ cmsgHeaders mem mhdr)
    (hshort : ∀ c ∈ hs, (cmsghdrAt mem c).isSpHdr → ¬ Overlong mem mhdr c) :
    ReadsControlOnly mem mhdr (hs.filterMap (sphdrRange mem)) := by
  constructor
  · intro r hr
    obtain ⟨c, hc, hrange⟩ := List.mem_filterMap.mp hr
    exact (insideControl_iff (inControl_of_mem mem mhdr (hsub c hc)) hrange).mpr
      (hshort c hc (sphdrRange_fst hrange).2)
  · intro c _ hlong r hr heq
    obtain ⟨d, hd, hrange⟩ := List.mem_filterMap.mp hr
    obtain ⟨hfst, hsp⟩ := sphdrRange_fst hrange
    have hcd : d = c := Nat.add_right_cancel (hfst.symm.trans heq)
    exact hshort d hd hsp (hcd ▸ hlong)

/-- INTERNAL: if every header is copied, none of type `SP_HDR` may be too long. -/
theorem readsControlOnly_iff :
    ReadsControlOnly mem mhdr ((cmsgHeaders mem mhdr).filterMap (sphdrRange mem)) ↔
      ∀ c ∈ cmsgHeaders mem mhdr, (cmsghdrAt mem c).isSpHdr → ¬ Overlong mem mhdr c := by
  refine ⟨?_, readsControlOnly_of_short fun _ hc => hc⟩
  rintro ⟨hinside, -⟩ c hc hsp hlong
  have hin := inControl_of_mem mem mhdr hc
  obtain ⟨n, hrange⟩ := sphdrRange_of_overlong hin hsp hlong
  exact (insideControl_iff hin hrange).mp
    (hinside _ (List.mem_filterMap.mpr ⟨c, hc, hrange⟩)) hlong

/-- For every control buffer, `mb_msg_from_msghdr` returns, and it succeeds exactly if the body is
gathered and every control message copies.  It keeps to the buffer exactly if one of these fails (a
missing or too large buffer, a refused allocation, a `cmsg_len` below 16) or no header of type
`SP_HDR` that the iteration yields extends past the end.  Only the last header can.  A message that
is built has the bytes of the last copy as its `sphdr`.  SRC: global.c:692-757 -/
theorem sendmsg_control_bounds (mem : Mem) (env : MsghdrEnv) (max : ℤ) (mhdr : Msghdr) :
    ∃ b, msgFromMsghdr mem env max mhdr = some b ∧
      ((∃ m, b.result = .ok m) ↔
        Gathers env max mhdr ∧ ∀ c ∈ cmsgHeaders mem mhdr, Copies mem env.alloc c) ∧
      (∀ m, b.result = .ok m → m.msg.sphdr = lastBytes mem b.copied) ∧
      (ReadsControlOnly mem mhdr b.copied ↔
        ¬ Gathers env max mhdr ∨ (∃ c ∈ cmsgHeaders mem mhdr, ¬ Copies mem env.alloc c) ∨
          ∀ c ∈ cmsgHeaders mem mhdr, (cmsghdrAt mem c).isSpHdr → ¬ Overlong mem mhdr c) ∧
      ∀ c ∈ cmsgHeaders mem mhdr, Overlong mem mhdr c →
        (cmsgHeaders mem mhdr).getLast? = some c := by
  have hlast : ∀ c ∈ cmsgHeaders mem mhdr, Overlong mem mhdr c →
      (cmsgHeaders mem mhdr).getLast? = some c := fun _ hc => getLast_of_overlong hc
  rcases msgFromMsghdr_cases mem env max mhdr with ⟨hnot, e, heq⟩ | ⟨hg, heq⟩
  · exact ⟨_, heq, iff_of_false (by rintro ⟨m, ⟨⟩⟩) (fun h => hnot h.1), (fun m hm => by cases hm),
      iff_of_true ⟨List.forall_mem_nil _, fun _ _ _ => List.forall_mem_nil _⟩ (Or.inl hnot), hlast⟩
  · refine ⟨_, heq, ?_⟩
    cases hfold : foldBody (copySphdr mem env.alloc) (cmsgHeaders mem mhdr) ⟨[], []⟩ with
    | error e =>
      obtain ⟨pre, c, post, u, hsplit, hpre, hc⟩ := foldBody_eq_error hfold
      obtain ⟨hfails, hcopied⟩ := copySphdr_eq_error hc
      have hmem : c ∈ cmsgHeaders mem mhdr := by
        rw [hsplit]
        exact List.mem_append_right _ List.mem_cons_self
      have hreads : ReadsControlOnly mem mhdr e.2 := by
        rw [hcopied, (foldBody_copySphdr hpre).2.1, List.nil_append]
        exact readsControlOnly_of_short (fun d hd => hsplit ▸ List.mem_append_left _ hd)
          fun d hd _ => not_overlong_before hsplit hd
      exact ⟨iff_of_false (by rintro ⟨m, ⟨⟩⟩) (fun h => hfails (h.2 c hmem)),
        (fun m hm => by cases hm), iff_of_true hreads (Or.inr (Or.inl ⟨c, hmem, hfails⟩)), hlast⟩
    | ok t =>
      obtain ⟨hcopies, hcopied, hsphdr⟩ := foldBody_copySphdr hfold
      refine ⟨iff_of_true ⟨_, rfl⟩ ⟨hg, hcopies⟩, (fun m hm => by cases hm; exact hsphdr rfl), ?_,
        hlast⟩
      have hall : t.copied = (cmsgHeaders mem mhdr).filterMap (sphdrRange mem) := hcopied
      have hnone : ¬ ∃ c ∈ cmsgHeaders mem mhdr, ¬ Copies mem env.alloc c :=
        fun ⟨c, hc, hnot⟩ => hnot (hcopies c hc)
      show ReadsControlOnly mem mhdr t.copied ↔ _
      rw [hall, readsControlOnly_iff]
      simp only [hg, hnone, not_true_eq_false, false_or]

/-- One header of type `SP_HDR` in a buffer of 16 bytes at the address 1000; its `cmsg_len` is
24. -/
def longSphdrMem : Mem := fun x => if x = 1000 then 24 else if x = 1008 ∨ x = 1012 then 1 else 0

/-- `mb_msg_from_msghdr` copies 8 bytes from behind the buffer into the `sphdr`. -/
theorem sendmsg_reads_past_control :
    msgFromMsghdr longSphdrMem ⟨none, fun _ => true⟩ (-1) ⟨none, 0, some 1000, 16⟩ =
      some ⟨.ok ⟨⟨List.replicate 8 0, [], ()⟩, 0⟩, [(1016, 8)]⟩ ∧
    ¬ ReadsControlOnly longSphdrMem ⟨none, 0, some 1000, 16⟩ [(1016, 8)] := by
  refine ⟨by rfl, fun h => ?_⟩
  obtain ⟨control, hcontrol, -, hend⟩ := h.1 (1016, 8) List.mem_cons_self
  cases hcontrol
  exact absurd hend (by decide)

end Call

end MsgBroker.Analysis.Cmsg
