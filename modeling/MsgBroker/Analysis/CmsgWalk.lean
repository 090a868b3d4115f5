import MsgBroker.Model.Msghdr

/-!
# The iteration over the control messages

`mb_cmsg_nxthdr_` reads a length from the buffer and rounds it up in 64-bit arithmetic.
-/

set_option autoImplicit false

namespace MsgBroker.Analysis.Cmsg

open Lib Model

/-! ## The arithmetic of the lengths -/

theorem and_not_low {w : ℕ} (x : BitVec w) (k : ℕ) :
    (x &&& ~~~(BitVec.ofNat w (2 ^ k - 1))) = (x >>> k) <<< k := by
  ext i hi
  have hlow : (BitVec.ofNat w (2 ^ k - 1)).getLsbD i = decide (i < k) := by
    rw [BitVec.getLsbD_ofNat, Nat.testBit_two_pow_sub_one]
    simp [hi]
  by_cases hk : i < k
  · simp [← BitVec.getLsbD_eq_getElem, hlow, hk, hi]
  · simp [← BitVec.getLsbD_eq_getElem, hlow, hk, hi, Nat.add_sub_cancel' (Nat.le_of_not_lt hk)]

theorem toNat_cmsghdrSize : cmsghdrSize.toNat = 16 := rfl

theorem toNat_cmsgAlign (len : UInt64) :
    (cmsgAlign len).toNat = (len.toNat + 7) % 2 ^ 64 / 8 * 8 := by
  have hsum : (len + 8 - 1).toNat = (len.toNat + 7) % 2 ^ 64 := by
    rw [show len + 8 - 1 = len + 7 by grind, UInt64.toNat_add]
    rfl
  have hand : (cmsgAlign len).toBitVec = (len + 8 - 1).toBitVec >>> 3 <<< 3 :=
    and_not_low (len + 8 - 1).toBitVec 3
  rw [← UInt64.toNat_toBitVec, hand, BitVec.toNat_shiftLeft, BitVec.toNat_ushiftRight,
    UInt64.toNat_toBitVec, hsum, Nat.shiftLeft_eq, Nat.shiftRight_eq_div_pow]
  omega

/-! ## One step -/

section Step

variable {mem : Mem} {mhdr : Msghdr} {control c : ℕ}

/-- The header at `c` lies in the control buffer, at a multiple of 8. -/
def InControl (mhdr : Msghdr) (c : ℕ) : Prop :=
  ∃ control off, mhdr.control = some control ∧ c = control + off ∧ 8 ∣ off ∧
    off + cmsghdrSize.toNat ≤ mhdr.controllen.toNat

/-- How many headers fit between `c` and the end of the buffer. -/
def headersLeft (mhdr : Msghdr) (c : ℕ) : ℕ :=
  (mhdr.control.getD 0 + mhdr.controllen.toNat - c) / cmsghdrSize.toNat

theorem firsthdr_eq_some {p : ℕ} (h : cmsgFirsthdr mem mhdr = some p) :
    mhdr.control = some p ∧ cmsghdrSize.toNat ≤ mhdr.controllen.toNat := by
  simp only [cmsgFirsthdr, cmsgNxthdr, bind, Option.bind_some, Option.bind_eq_some_iff] at h
  obtain ⟨control, hcontrol, h⟩ := h
  split at h
  · cases h
  · rename_i hlen
    split at h
    · cases h
    · cases h
      exact ⟨hcontrol, UInt64.le_iff_toNat_le.mp (UInt64.not_lt.mp hlen)⟩

theorem toNat_remain {stop : ℕ} (hc : c ≤ stop) (hlt : stop - c < 2 ^ 64) :
    (UInt64.ofInt ((stop : ℤ) - c)).toNat = stop - c := by
  have hcast : (stop : ℤ) - c = ((stop - c : ℕ) : ℤ) := by omega
  rw [hcast]
  show (UInt64.ofNat _).toNat = _
  rw [UInt64.toNat_ofNat']
  omega

theorem nexthdr_eq_some_iff (hcontrol : mhdr.control = some control) (hle : control ≤ c)
    (hfits : c + cmsghdrSize.toNat ≤ control + mhdr.controllen.toNat) {p : ℕ} :
    cmsgNexthdr mem mhdr c = some p ↔
      cmsghdrSize.toNat ≤ (cmsghdrAt mem c).len.toNat ∧
        p = c + ((cmsghdrAt mem c).len.toNat + 7) / 8 * 8 ∧
        p + cmsghdrSize.toNat ≤ control + mhdr.controllen.toNat := by
  have hsixteen := toNat_cmsghdrSize
  have hctl := mhdr.controllen.toNat_lt
  set len := (cmsghdrAt mem c).len with hlen
  have hlong : ¬ mhdr.controllen < cmsghdrSize := by
    rw [UInt64.lt_iff_toNat_lt]
    omega
  have hremain : (UInt64.ofInt (((control + mhdr.controllen.toNat : ℕ) : ℤ) - c)).toNat =
      control + mhdr.controllen.toNat - c := toNat_remain (by omega) (by omega)
  have halign := toNat_cmsgAlign len
  have hltlen := len.toNat_lt
  simp only [cmsgNexthdr, cmsgNxthdr, bind, Option.bind_some, hcontrol, if_neg hlong]
  simp only [← hlen, gt_iff_lt, UInt64.lt_iff_toNat_lt, hremain, halign]
  split
  · simp only [reduceCtorEq, false_iff]
    omega
  · split
    · simp only [reduceCtorEq, false_iff]
      omega
    · split
      · simp only [reduceCtorEq, false_iff]
        omega
      · simp only [Option.some.injEq]
        omega

end Step

/-! ## The whole iteration -/

section Walk

variable (mem : Mem) (mhdr : Msghdr)

theorem inControl_firsthdr {p : ℕ} (h : cmsgFirsthdr mem mhdr = some p) :
    InControl mhdr p ∧ headersLeft mhdr p ≤ cmsgBound mhdr := by
  obtain ⟨hcontrol, hlen⟩ := firsthdr_eq_some h
  refine ⟨⟨p, 0, hcontrol, rfl, Nat.dvd_zero 8, by omega⟩, ?_⟩
  unfold headersLeft cmsgBound
  rw [hcontrol, Option.getD_some, Nat.add_sub_cancel_left]

theorem inControl_nexthdr {c p : ℕ} (hc : InControl mhdr c)
    (h : cmsgNexthdr mem mhdr c = some p) :
    InControl mhdr p ∧ c + cmsghdrSize.toNat ≤ p := by
  obtain ⟨control, off, hcontrol, rfl, hdvd, hfits⟩ := hc
  obtain ⟨hlen, rfl, hin⟩ :=
    (nexthdr_eq_some_iff hcontrol (Nat.le_add_right _ _) (by omega)).mp h
  have hsixteen := toNat_cmsghdrSize
  refine ⟨⟨control, off + ((cmsghdrAt mem (control + off)).len.toNat + 7) / 8 * 8, hcontrol,
    by omega, ?_, by omega⟩, by omega⟩
  exact Nat.dvd_add hdvd (Nat.dvd_mul_left 8 _)

theorem bounded_nexthdr :
    Bounded (cmsgNexthdr mem mhdr) (InControl mhdr) (headersLeft mhdr) where
  pos c hc := by
    obtain ⟨control, off, hcontrol, rfl, -, hfits⟩ := hc
    unfold headersLeft
    rw [toNat_cmsghdrSize] at *
    rw [hcontrol, Option.getD_some]
    omega
  step c p hc h := by
    obtain ⟨hp, hstep⟩ := inControl_nexthdr mem mhdr hc h
    refine ⟨hp, ?_⟩
    obtain ⟨control, off, hcontrol, rfl, -, hfits⟩ := hp
    unfold headersLeft
    rw [toNat_cmsghdrSize] at *
    rw [hcontrol, Option.getD_some]
    omega

theorem cmsgAt_eq (n : ℕ) : cmsgAt mem mhdr n = (cmsgHeaders mem mhdr)[n]? :=
  posAt_eq_trail (bounded_nexthdr mem mhdr) (fun _ hp => inControl_firsthdr mem mhdr hp) n

theorem inControl_of_mem {c : ℕ} (hc : c ∈ cmsgHeaders mem mhdr) : InControl mhdr c :=
  forall_mem_trail (bounded_nexthdr mem mhdr) (fun _ hp => (inControl_firsthdr mem mhdr hp).1) c hc

theorem pairwise_cmsgHeaders : (cmsgHeaders mem mhdr).Pairwise (· < ·) := by
  have htrans : ∀ a b c : ℕ, a < b → b < c → a < c := fun _ _ _ => Nat.lt_trans
  refine pairwise_trail htrans (bounded_nexthdr mem mhdr) ?_
    fun _ hp => (inControl_firsthdr mem mhdr hp).1
  intro c p hc hp
  have hstep := (inControl_nexthdr mem mhdr hc hp).2
  have hsixteen := toNat_cmsghdrSize
  omega

/-- The iteration with `MB_CMSG_FIRSTHDR` and `MB_CMSG_NXTHDR` over a buffer of any contents yields
at most `msg_controllen / sizeof (struct mb_cmsghdr)` headers before `NULL`.  Every header lies in
the buffer as a whole, at an offset that is a multiple of `sizeof (size_t)`, and the offsets
increase.  SRC: global.c:976-1010 -/
theorem cmsg_iteration_ends :
    ∃ headers : List ℕ,
      (∀ n, cmsgAt mem mhdr n = headers[n]?) ∧
      headers.length ≤ mhdr.controllen.toNat / cmsghdrSize.toNat ∧
      (∀ c ∈ headers, ∃ control off, mhdr.control = some control ∧ c = control + off ∧ 8 ∣ off ∧
        off + cmsghdrSize.toNat ≤ mhdr.controllen.toNat) ∧
      headers.Pairwise (· < ·) :=
  ⟨cmsgHeaders mem mhdr, cmsgAt_eq mem mhdr, length_trail_le _ _ _,
    fun _ hc => inControl_of_mem mem mhdr hc, pairwise_cmsgHeaders mem mhdr⟩

end Walk

end MsgBroker.Analysis.Cmsg
