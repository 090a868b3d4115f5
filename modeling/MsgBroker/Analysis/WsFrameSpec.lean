import Mathlib.Data.List.TakeDrop
import MsgBroker.Model.Sws

/-!
# What a decoder reads off a frame header

The header written by `mb_sws_build_frame`, read by the functions `mb_sws_recv` uses: the second
byte alone gives the size of the header and tells whether the frame is masked, and the whole header
gives the opcode, the length of the payload in each of its three encodings, and the key.
-/

set_option autoImplicit false

namespace MsgBroker.Analysis

open Model

/-! ## Masking -/

@[simp] theorem length_wsMask (key : MaskKey) (data : List UInt8) :
    (wsMask key data).length = data.length := by
  simp [wsMask]

/-- INTERNAL: masking twice is the identity.  SRC: sws.c:107-112 -/
@[simp] theorem wsMask_wsMask (key : MaskKey) (data : List UInt8) :
    wsMask key (wsMask key data) = data := by
  unfold wsMask
  rw [List.mapIdx_mapIdx]
  have hxor : ∀ (i : ℕ) (b : UInt8), b ^^^ key.byte i ^^^ key.byte i = b := by
    intro i b
    rw [UInt8.xor_assoc, UInt8.xor_self, UInt8.xor_zero]
  refine List.ext_getElem (by simp) fun i h1 h2 => ?_
  simp [hxor]

@[simp] theorem length_framePayload (snd : Bool) (key : MaskKey) (data : List UInt8) :
    (framePayload snd key data).length = data.length := by
  cases snd <;> simp [framePayload]

/-! ## The second byte -/

/-- The length field for a payload of this length. -/
def lenField (len : ℕ) : UInt8 :=
  if len < 126 then UInt8.ofNat len else if len ≤ 65535 then 126 else 127

/-- The extended length behind the second byte. -/
def lenExt (len : ℕ) : List UInt8 :=
  if len < 126 then []
  else if len ≤ 65535 then [UInt8.ofNat ((len >>> 8) &&& 0xff), UInt8.ofNat (len &&& 0xff)]
  else 0 :: 0 :: 0 :: 0 :: putUint32 len

theorem frameLen_eq (snd : Bool) (len : ℕ) :
    frameLen snd len = (lenField len ||| maskBit snd) :: lenExt len := by
  unfold frameLen lenField lenExt
  split_ifs <;> rfl

theorem frameHdr_eq (snd : Bool) (key : MaskKey) (opcode : Opcode) (len : ℕ) :
    frameHdr snd key opcode len = (0x80 ||| opcode.code) :: (lenField len ||| maskBit snd) ::
      (lenExt len ++ if snd then key.bytes else []) := by
  rw [frameHdr, frameLen_eq, List.cons_append]

/-- INTERNAL: a frame is at most 14 bytes longer than its payload. -/
theorem buildFrame_length_le (snd : Bool) (key : MaskKey) (op : Opcode) (data : List UInt8) :
    (buildFrame snd key op data).length ≤ 14 + data.length := by
  have hext : (lenExt data.length).length ≤ 8 := by
    unfold lenExt
    split_ifs <;> simp
  have hkey : (if snd = true then key.bytes else []).length ≤ 4 := by
    split_ifs <;> simp [MaskKey.bytes]
  rw [buildFrame, List.length_append, length_framePayload, frameHdr_eq]
  simp only [List.length_cons, List.length_append]
  omega

theorem or_maskBit (b : UInt8) (hb : b < 128) (snd : Bool) :
    (b ||| maskBit snd) &&& 0x7f = b ∧ ((b ||| maskBit snd) &&& 0x80 ≠ 0 ↔ snd = true) := by
  have hall : ∀ n : Fin 128, ∀ s : Bool,
      (UInt8.ofNat n ||| maskBit s) &&& 0x7f = UInt8.ofNat n ∧
        ((UInt8.ofNat n ||| maskBit s) &&& 0x80 ≠ 0 ↔ s = true) := by decide
  have hlt : b.toNat < 128 := by simpa [UInt8.lt_iff_toNat_lt] using hb
  simpa using hall ⟨b.toNat, hlt⟩ snd

theorem lenField_lt (len : ℕ) : lenField len < 128 := by
  unfold lenField
  split_ifs with hshort
  · have hmod : len % 2 ^ 8 = len := Nat.mod_eq_of_lt (by omega)
    rw [UInt8.lt_iff_toNat_lt, UInt8.toNat_ofNat', hmod]
    exact Nat.lt_of_lt_of_le hshort (by decide)
  · decide
  · decide

theorem lenField_cases (len : ℕ) :
    (len < 126 ∧ lenField len < 126 ∧ (lenField len).toNat = len) ∨
      (126 ≤ len ∧ len ≤ 65535 ∧ lenField len = 126) ∨
      (65535 < len ∧ lenField len = 127) := by
  unfold lenField
  split_ifs with hshort hmid
  · left
    have hmod : len % 2 ^ 8 = len := Nat.mod_eq_of_lt (by omega)
    refine ⟨hshort, ?_, ?_⟩
    · rw [UInt8.lt_iff_toNat_lt, UInt8.toNat_ofNat', hmod]
      exact hshort
    · rw [UInt8.toNat_ofNat', hmod]
  · exact Or.inr (Or.inl ⟨by omega, hmid, rfl⟩)
  · exact Or.inr (Or.inr ⟨by omega, rfl⟩)

/-! ## Reading the header -/

section Header

variable {x : Sws} {snd : Bool} {key : MaskKey} {op : Opcode} {len : ℕ}

theorem second_byte (h : x.inhdr.getD 1 0 = lenField len ||| maskBit snd) :
    x.masked = snd ∧ x.lenByte = lenField len := by
  obtain ⟨h1, h2⟩ := or_maskBit (lenField len) (lenField_lt len) snd
  unfold Sws.masked Sws.lenByte
  rw [h]
  refine ⟨?_, h1⟩
  cases snd <;> simp_all

theorem need_eq (h : x.inhdr.getD 1 0 = lenField len ||| maskBit snd) :
    x.need = (frameHdr snd key op len).length := by
  obtain ⟨hmask, hlen⟩ := second_byte h
  have hkey : (if snd = true then key.bytes else []).length = if snd = true then 4 else 0 := by
    cases snd <;> rfl
  rw [frameHdr_eq]
  simp only [Sws.need, hmask, hlen, List.length_cons, List.length_append, hkey]
  rcases lenField_cases len with ⟨hlt, hfield, _⟩ | ⟨hge, hle, hfield⟩ | ⟨hgt, hfield⟩
  · have h126 : lenField len ≠ 126 := by
      intro heq
      rw [heq] at hfield
      exact absurd hfield (by decide)
    have h127 : lenField len ≠ 127 := by
      intro heq
      rw [heq] at hfield
      exact absurd hfield (by decide)
    simp only [h126, h127, if_false, lenExt, hlt, if_true, List.length_nil]
    omega
  · have hnot : ¬ len < 126 := by omega
    simp only [hfield, lenExt, hnot, hle, if_true, if_false, List.length_cons, List.length_nil]
    omega
  · have hnot : ¬ len < 126 := by omega
    have hnot' : ¬ len ≤ 65535 := by omega
    simp only [hfield, lenExt, hnot, hnot', if_false, List.length_cons, length_putUint32]
    have h126 : (127 : UInt8) ≠ 126 := by decide
    simp only [h126, if_false, if_true]
    omega

theorem getD_second (h : x.inhdr = frameHdr snd key op len) :
    x.inhdr.getD 1 0 = lenField len ||| maskBit snd := by
  rw [h, frameHdr_eq]
  rfl

theorem getUint32_append (n : ℕ) (rest : List UInt8) (h : n < 2 ^ 32) :
    getUint32 (putUint32 n ++ rest) = n := by
  have hcut : getUint32 (putUint32 n ++ rest) = getUint32 (putUint32 n) := by
    simp only [getUint32, putUint32, List.cons_append, List.getD_cons_zero, List.getD_cons_succ]
  rw [hcut, getUint32_putUint32 n h]

/-- INTERNAL: **the length of the payload**, in each of its encodings, and where the key begins. -/
theorem payloadSize_eq (h : x.inhdr = frameHdr snd key op len) (hlen : len ≤ intMax) :
    x.payloadSize = some (len, 2 + (lenExt len).length) := by
  obtain ⟨_, hbyte⟩ := second_byte (getD_second h)
  unfold Sws.payloadSize
  simp only [hbyte]
  rcases lenField_cases len with ⟨hlt, hfield, hnat⟩ | ⟨hge, hle, hfield⟩ | ⟨hgt, hfield⟩
  · simp only [hfield, if_true, hnat, lenExt, hlt, List.length_nil]
  · have hnot : ¬ len < 126 := by omega
    have hnot' : ¬ (126 : UInt8) < 126 := by decide
    have hext : lenExt len =
        [UInt8.ofNat ((len >>> 8) &&& 0xff), UInt8.ofNat (len &&& 0xff)] := by
      simp only [lenExt, hnot, hle, if_true, if_false]
    simp only [hfield, hnot', if_true, if_false]
    rw [h, frameHdr_eq, hext]
    have hval : (UInt8.ofNat ((len >>> 8) &&& 0xff)).toNat <<< 8 |||
        (UInt8.ofNat (len &&& 0xff)).toNat = len := by
      have hmask : ∀ y : ℕ, y &&& 0xff = y % 2 ^ 8 := fun y => Nat.and_two_pow_sub_one_eq_mod y 8
      have hlow : (UInt8.ofNat (len &&& 0xff)).toNat < 2 ^ 8 := UInt8.toNat_lt _
      rw [← Nat.shiftLeft_add_eq_or_of_lt hlow, Nat.shiftLeft_eq]
      simp only [hmask, Nat.shiftRight_eq_div_pow, UInt8.toNat_ofNat']
      omega
    simpa using hval
  · have hnot : ¬ len < 126 := by omega
    have hnot' : ¬ len ≤ 65535 := by omega
    have hext : lenExt len = 0 :: 0 :: 0 :: 0 :: putUint32 len := by
      simp only [lenExt, hnot, hnot', if_false]
    have hlt : ¬ (127 : UInt8) < 126 := by decide
    have hne : (127 : UInt8) ≠ 126 := by decide
    simp only [hfield, hlt, hne, if_false]
    have hget : getUint32 (x.inhdr.drop 6) = len := by
      rw [h, frameHdr_eq, hext]
      exact getUint32_append len _ (by unfold intMax at hlen; omega)
    have hzero : x.inhdr.getD 2 0 ||| x.inhdr.getD 3 0 ||| x.inhdr.getD 4 0 |||
        x.inhdr.getD 5 0 = 0 := by
      rw [h, frameHdr_eq, hext]
      simp only [List.cons_append, List.getD_cons_zero, List.getD_cons_succ]
      decide
    simp only [hzero, hget, ne_eq, not_true_eq_false, if_false, gt_iff_lt, Nat.not_lt.mpr hlen,
      hext, List.length_cons, length_putUint32]

theorem getD_first (h : x.inhdr = frameHdr snd key op len) :
    x.inhdr.getD 0 0 = 0x80 ||| op.code := by
  rw [h, frameHdr_eq]
  rfl

theorem opcode_eq (h : x.inhdr = frameHdr snd key op len) : x.opcode = op.code := by
  unfold Sws.opcode
  rw [getD_first h]
  cases op <;> decide

theorem hdrError_none (h : x.inhdr = frameHdr snd key op len) (hrole : x.isClient = !snd)
    (hlen : len ≤ intMax) : x.hdrError = none := by
  obtain ⟨hmask, _⟩ := second_byte (getD_second h)
  have hbits : ¬ ((0x80 ||| op.code) &&& 0x70 ≠ 0 ∨ (0x80 ||| op.code) &&& 0x80 = 0) := by
    cases op <;> decide
  have hknown : ¬ (op.code ≠ Opcode.BINARY.code ∧ op.code ≠ Opcode.CLOSE.code ∧
      op.code ≠ Opcode.PING.code ∧ op.code ≠ Opcode.PONG.code) := by
    cases op <;> decide
  have hne : ¬ (!snd) = snd := by cases snd <;> decide
  unfold Sws.hdrError
  simp only [hrole, hmask, hne, getD_first h, hbits, opcode_eq h, hknown, payloadSize_eq h hlen,
    Option.isNone_some, Bool.false_eq_true, if_false]

theorem parseHdr_eq (h : x.inhdr = frameHdr snd key op len) (hlen : len ≤ intMax) :
    x.parseHdr = { x with payloadLen := len, maskKey := if snd then key else x.maskKey } := by
  obtain ⟨hmask, _⟩ := second_byte (getD_second h)
  unfold Sws.parseHdr
  rw [payloadSize_eq h hlen, hmask]
  cases snd with
  | false => rfl
  | true =>
    have hget : ∀ i, x.inhdr.getD (2 + (lenExt len).length + i) 0 = key.bytes.getD i 0 := by
      intro i
      rw [h, frameHdr_eq]
      have hidx : 2 + (lenExt len).length + i = (lenExt len).length + i + 1 + 1 := by omega
      rw [hidx]
      simp only [List.getD_cons_succ, if_true]
      rw [List.getD_append_right _ _ _ _ (by omega), Nat.add_sub_cancel_left]
    have h0 := hget 0
    simp only [Option.getD_some, if_true, Nat.add_zero] at h0 ⊢
    rw [h0, hget 1, hget 2, hget 3]
    rfl

end Header

end MsgBroker.Analysis
