import Mathlib.Data.Nat.Bitwise
import MsgBroker.Lib.Base64
import MsgBroker.Model.WsHandshake

/-!
# The hash and the encoding of the WebSocket handshake

`mb_b64_encode` is the base 64 encoding, and `mb_sha1` is SHA-1 for data whose length in bits fits
64 bits; the writes to its padded copy stay inside the block that it allocates.
-/

set_option autoImplicit false

namespace MsgBroker.Analysis.WsHandshake

open Lib Model

/-! ## Bytes and words -/

section Words

theorem toNat_byte_shiftLeft (a : UInt8) (s : UInt32) (k : ℕ) (hs : s.toNat = k) (hk : k ≤ 24) :
    (a.toUInt32 <<< s).toNat = a.toNat * 2 ^ k := by
  have ha := a.toNat_lt
  have hlt : a.toNat * 2 ^ k < 2 ^ 32 := by
    calc a.toNat * 2 ^ k < 2 ^ 8 * 2 ^ k := Nat.mul_lt_mul_of_pos_right ha (Nat.two_pow_pos k)
      _ = 2 ^ (8 + k) := (pow_add 2 8 k).symm
      _ ≤ 2 ^ 32 := Nat.pow_le_pow_right (by decide) (by omega)
  rw [UInt32.toNat_shiftLeft, hs, Nat.mod_eq_of_lt (by omega : k < 32), UInt8.toNat_toUInt32,
    Nat.shiftLeft_eq, Nat.mod_eq_of_lt hlt]

theorem toNat_word (a b c d : UInt8) :
    (a.toUInt32 <<< 24 ||| b.toUInt32 <<< 16 ||| c.toUInt32 <<< 8 ||| d.toUInt32).toNat =
      a.toNat * 2 ^ 24 + b.toNat * 2 ^ 16 + c.toNat * 2 ^ 8 + d.toNat := by
  have hb := b.toNat_lt
  have hc := c.toNat_lt
  have hd := d.toNat_lt
  have hor : ∀ x y k : ℕ, y < 2 ^ k → x * 2 ^ k ||| y = x * 2 ^ k + y := by
    intro x y k hy
    rw [← Nat.shiftLeft_eq, ← Nat.shiftLeft_add_eq_or_of_lt hy]
  rw [UInt32.toNat_or, UInt32.toNat_or, UInt32.toNat_or,
    toNat_byte_shiftLeft a 24 24 rfl (by decide), toNat_byte_shiftLeft b 16 16 rfl (by decide),
    toNat_byte_shiftLeft c 8 8 rfl (by decide), UInt8.toNat_toUInt32, Nat.or_assoc, Nat.or_assoc,
    hor c.toNat _ 8 hd, hor b.toNat _ 16 (by omega), hor a.toNat _ 24 (by omega)]
  omega

theorem byte_of_uint32 (v s : UInt32) (k : ℕ) (hs : s.toNat = 8 * k) (hk : k < 4) :
    (v >>> s).toUInt8 = UInt8.ofNat (v.toNat / 256 ^ k) := by
  refine UInt8.toNat_inj.mp ?_
  rw [UInt32.toNat_toUInt8, UInt32.toNat_shiftRight, hs, Nat.mod_eq_of_lt (by omega : 8 * k < 32),
    Nat.shiftRight_eq_div_pow, UInt8.toNat_ofNat', Nat.pow_mul]

theorem byte_of_uint64 (v s : UInt64) (k : ℕ) (hs : s.toNat = 8 * k) (hk : k < 8) :
    (v >>> s).toUInt8 = UInt8.ofNat (v.toNat / 256 ^ k) := by
  refine UInt8.toNat_inj.mp ?_
  rw [UInt64.toNat_toUInt8, UInt64.toNat_shiftRight, hs, Nat.mod_eq_of_lt (by omega : 8 * k < 64),
    Nat.shiftRight_eq_div_pow, UInt8.toNat_ofNat', Nat.pow_mul]

end Words

/-! ## Base 64 -/

section Base64

theorem b64Table_getD : ∀ n < 64, b64Table.getD n 0 = b64Char n := by decide

theorem b64Table_sextet (v : UInt32) (i : ℕ) (s : UInt32) (hs : s.toNat = 6 * i)
    (hi : i < 5) : b64Table.getD ((v >>> s) &&& 0x3f).toNat 0 = b64At v.toNat i := by
  have hbits : ((v >>> s) &&& 0x3f).toNat = v.toNat / 2 ^ (6 * i) % 64 := by
    rw [UInt32.toNat_and, UInt32.toNat_shiftRight, hs, Nat.mod_eq_of_lt (by omega : 6 * i < 32),
      Nat.shiftRight_eq_div_pow]
    exact Nat.and_two_pow_sub_one_eq_mod _ 6
  rw [hbits, b64Table_getD _ (Nat.mod_lt _ (by decide))]
  rfl

theorem toNat_group (a b c : UInt8) :
    (a.toUInt32 <<< 16 ||| b.toUInt32 <<< 8 ||| c.toUInt32).toNat = b64Group a b c := by
  have hword := toNat_word 0 a b c
  have hzero : (0 : UInt8).toUInt32 <<< 24 = 0 := by decide
  rw [hzero, UInt32.zero_or, UInt8.toNat_zero, Nat.zero_mul, Nat.zero_add] at hword
  exact hword

theorem b64Round_cons (a b c : UInt8) (rest : List UInt8) (n : ℕ) :
    b64Round (a :: b :: c :: rest) (3 * (n + 1)) = b64Round rest (3 * n) := by
  have hpos : 3 * (n + 1) = 3 * n + 1 + 1 + 1 := by omega
  rw [hpos]
  simp only [b64Round, List.length_cons, List.getD_cons_succ]
  have h₁ : 3 * n + 1 + 1 + 1 + 1 < rest.length + 1 + 1 + 1 ↔ 3 * n + 1 < rest.length := by omega
  have h₂ : 3 * n + 1 + 1 + 1 + 2 < rest.length + 1 + 1 + 1 ↔ 3 * n + 2 < rest.length := by omega
  simp only [h₁, h₂]

theorem b64_chars {v : UInt32} {w : ℕ} (hv : v.toNat = w) :
    b64Table.getD ((v >>> 18) &&& 0x3f).toNat 0 = b64At w 3 ∧
      b64Table.getD ((v >>> 12) &&& 0x3f).toNat 0 = b64At w 2 ∧
      b64Table.getD ((v >>> 6) &&& 0x3f).toNat 0 = b64At w 1 ∧
      b64Table.getD (v &&& 0x3f).toNat 0 = b64At w 0 := by
  subst hv
  refine ⟨b64Table_sextet v 3 18 rfl (by decide), b64Table_sextet v 2 12 rfl (by decide),
    b64Table_sextet v 1 6 rfl (by decide), ?_⟩
  have hlow := b64Table_sextet v 0 0 rfl (by decide)
  rwa [UInt32.shiftRight_zero] at hlow

theorem b64Encode_eq (src : List UInt8) : b64Encode src = base64 src := by
  induction src using base64.induct with
  | case1 => rfl
  | case2 a =>
    have hv : (a.toUInt32 <<< 16).toNat = b64Group a 0 0 := by
      rw [toNat_byte_shiftLeft a 16 16 rfl (by decide), b64Group, UInt8.toNat_zero]
      omega
    obtain ⟨h₃, h₂, -, -⟩ := b64_chars hv
    simp only [base64]
    rw [← h₃, ← h₂]
    simp [b64Encode, b64Round, b64Pad]
  | case3 a b =>
    have hv : (a.toUInt32 <<< 16 ||| b.toUInt32 <<< 8).toNat = b64Group a b 0 := by
      have hgroup := toNat_group a b 0
      have hzero : (0 : UInt8).toUInt32 = 0 := by decide
      rwa [hzero, UInt32.or_zero] at hgroup
    obtain ⟨h₃, h₂, h₁, -⟩ := b64_chars hv
    simp only [base64]
    rw [← h₃, ← h₂, ← h₁]
    simp [b64Encode, b64Round, b64Pad]
  | case4 a b c rest ih =>
    obtain ⟨h₃, h₂, h₁, h₀⟩ := b64_chars (toNat_group a b c)
    have hrounds : ((a :: b :: c :: rest).length + 2) / 3 = (rest.length + 2) / 3 + 1 := by
      simp only [List.length_cons]
      omega
    have hhead : b64Round (a :: b :: c :: rest) (3 * 0) =
        [b64At (b64Group a b c) 3, b64At (b64Group a b c) 2, b64At (b64Group a b c) 1,
          b64At (b64Group a b c) 0] := by
      rw [← h₃, ← h₂, ← h₁, ← h₀]
      simp [b64Round]
    rw [b64Encode, hrounds, List.range_succ_eq_map, List.flatMap_cons, List.flatMap_map, hhead]
    simp only [Nat.succ_eq_add_one, b64Round_cons]
    rw [base64, ← ih]
    rfl

end Base64

/-! ## SHA-1 -/

section Sha1

variable {data msg : List UInt8}

/-- The block after all writes: the data, the bit, zeros, and the length in bits as the source
computes it. -/
def filled (data : List UInt8) : List UInt8 :=
  let len := data.length
  let bitlen := UInt64.ofNat len * 8
  let paddedLen := ((len + 8) / 64 + 1) * 64
  data ++ [(0x80 : UInt8)] ++ List.replicate (paddedLen - len - 9) (0 : UInt8) ++
    [(bitlen >>> 56).toUInt8, (bitlen >>> 48).toUInt8, (bitlen >>> 40).toUInt8,
      (bitlen >>> 32).toUInt8, (bitlen >>> 24).toUInt8, (bitlen >>> 16).toUInt8,
      (bitlen >>> 8).toUInt8, bitlen.toUInt8]

/-- INTERNAL: that is the padded message of the standard. -/
theorem filled_eq_pad (h : 8 * data.length < 2 ^ 64) : filled data = Sha1.pad data := by
  have hzeros : ((data.length + 8) / 64 + 1) * 64 - data.length - 9 =
      (119 - data.length % 64) % 64 := by omega
  have hbits : (UInt64.ofNat data.length * 8).toNat = 8 * data.length := by
    rw [UInt64.toNat_mul, UInt64.toNat_ofNat']
    show data.length % 2 ^ 64 * 8 % 2 ^ 64 = 8 * data.length
    omega
  have hbytes : bigEndian 8 (8 * data.length) =
      [UInt8.ofNat (8 * data.length / 256 ^ 7), UInt8.ofNat (8 * data.length / 256 ^ 6),
        UInt8.ofNat (8 * data.length / 256 ^ 5), UInt8.ofNat (8 * data.length / 256 ^ 4),
        UInt8.ofNat (8 * data.length / 256 ^ 3), UInt8.ofNat (8 * data.length / 256 ^ 2),
        UInt8.ofNat (8 * data.length / 256 ^ 1), UInt8.ofNat (8 * data.length / 256 ^ 0)] := rfl
  have hlow := byte_of_uint64 (UInt64.ofNat data.length * 8) 0 0 rfl (by decide)
  rw [UInt64.shiftRight_zero] at hlow
  rw [filled, Sha1.pad, hbytes, hlow, byte_of_uint64 _ 56 7 rfl (by decide),
    byte_of_uint64 _ 48 6 rfl (by decide), byte_of_uint64 _ 40 5 rfl (by decide),
    byte_of_uint64 _ 32 4 rfl (by decide), byte_of_uint64 _ 24 3 rfl (by decide),
    byte_of_uint64 _ 16 2 rfl (by decide), byte_of_uint64 _ 8 1 rfl (by decide), hbits, hzeros,
    List.append_assoc data]
  rfl

theorem sha1Word_eq (msg : List UInt8) (n j : ℕ) :
    sha1Word msg (64 * n) j = Sha1.word msg (16 * n + j) := by
  have hpos : 64 * n + j * 4 = 4 * (16 * n + j) := by omega
  rw [sha1Word, Sha1.word, hpos, ← toNat_word, UInt32.ofNat_toNat]

theorem sha1Extend_spec (m : ℕ → UInt32) (k : ℕ) :
    ((List.range' 16 k).foldl sha1Extend ((List.range 16).map m)).length = 16 + k ∧
      ∀ t < 16 + k, ((List.range' 16 k).foldl sha1Extend ((List.range 16).map m)).getD t 0 =
        Sha1.schedule m t := by
  induction k with
  | zero =>
    refine ⟨by simp, fun t ht => ?_⟩
    rw [Sha1.schedule, if_pos ht]
    simp [ht]
  | succ k ih =>
    obtain ⟨hlen, hw⟩ := ih
    rw [List.range'_concat, List.foldl_append, List.foldl_cons, List.foldl_nil]
    generalize (List.range' 16 k).foldl sha1Extend ((List.range 16).map m) = w at hlen hw
    refine ⟨by simp only [sha1Extend, List.length_append, hlen, List.length_singleton]; omega, ?_⟩
    intro t ht
    by_cases hold : t < 16 + k
    · rw [← hw t hold, sha1Extend, List.getD_append _ _ _ _ (by omega)]
    · obtain rfl : t = 16 + k := by omega
      have hlast : ∀ x : UInt32, (w ++ [x]).getD (16 + k) 0 = x := by
        intro x
        rw [List.getD_append_right _ _ _ _ (by omega), hlen, Nat.sub_self]
        rfl
      have hstep : Sha1.schedule m (16 + k) =
          Sha1.rotl 1 (Sha1.schedule m (16 + k - 3) ^^^ Sha1.schedule m (16 + k - 8) ^^^
            Sha1.schedule m (16 + k - 14) ^^^ Sha1.schedule m (16 + k - 16)) := by
        rw [Sha1.schedule, if_neg (by omega)]
      rw [sha1Extend, Nat.one_mul, hlast, hstep, hw _ (by omega), hw _ (by omega),
        hw _ (by omega), hw _ (by omega)]
      rfl

theorem ch_or (b c d : UInt32) : (b &&& c) ||| (~~~b &&& d) = (b &&& c) ^^^ (~~~b &&& d) := by
  refine UInt32.toBitVec_inj.mp (BitVec.eq_of_getLsbD_eq fun i hi => ?_)
  simp only [UInt32.toBitVec_or, UInt32.toBitVec_and, UInt32.toBitVec_xor, UInt32.toBitVec_not,
    BitVec.getLsbD_or, BitVec.getLsbD_and, BitVec.getLsbD_xor, BitVec.getLsbD_not, hi,
    decide_true, Bool.true_and]
  cases b.toBitVec.getLsbD i <;> cases c.toBitVec.getLsbD i <;> cases d.toBitVec.getLsbD i <;> rfl

theorem maj_or (b c d : UInt32) :
    (b &&& c) ||| (b &&& d) ||| (c &&& d) = (b &&& c) ^^^ (b &&& d) ^^^ (c &&& d) := by
  refine UInt32.toBitVec_inj.mp (BitVec.eq_of_getLsbD_eq fun i _ => ?_)
  simp only [UInt32.toBitVec_or, UInt32.toBitVec_and, UInt32.toBitVec_xor,
    BitVec.getLsbD_or, BitVec.getLsbD_and, BitVec.getLsbD_xor]
  cases b.toBitVec.getLsbD i <;> cases c.toBitVec.getLsbD i <;> cases d.toBitVec.getLsbD i <;> rfl

theorem sha1Round_eq {w : List UInt32} {m : ℕ → UInt32} {j : ℕ}
    (hw : w.getD j 0 = Sha1.schedule m j) (s : Sha1.State) :
    sha1Round w s j = Sha1.round (Sha1.schedule m) s j := by
  obtain ⟨a, b, c, d, e⟩ := s
  simp only [sha1Round, Sha1.round, hw, ch_or, maj_or, Sha1.f, Sha1.k]
  split_ifs <;> rfl

theorem sha1Block_eq (msg : List UInt8) (h : Sha1.State) (n : ℕ) :
    sha1Block msg h (64 * n) = Sha1.compress h fun t => Sha1.word msg (16 * n + t) := by
  have hwords : sha1Words msg (64 * n) = (List.range' 16 64).foldl sha1Extend
      ((List.range 16).map fun t => Sha1.word msg (16 * n + t)) := by
    rw [sha1Words, funext (sha1Word_eq msg n)]
  obtain ⟨-, hw⟩ := sha1Extend_spec (fun t => Sha1.word msg (16 * n + t)) 64
  have hrounds : (List.range 80).foldl (sha1Round (sha1Words msg (64 * n))) h =
      (List.range 80).foldl
        (Sha1.round (Sha1.schedule fun t => Sha1.word msg (16 * n + t))) h := by
    refine List.foldl_ext _ _ h fun s j hj => sha1Round_eq ?_ s
    rw [hwords]
    exact hw j (List.mem_range.mp hj)
  rw [sha1Block, hrounds]
  rfl

/-- INTERNAL: **the blocks of the padded message** give the digest of the standard. -/
theorem sha1Digest_pad (data : List UInt8) : sha1Digest (Sha1.pad data) = sha1 data := by
  have hout : ∀ x : UInt32, sha1Out x = bigEndian 4 x.toNat := by
    intro x
    have hlow := byte_of_uint32 x 0 0 rfl (by decide)
    rw [UInt32.shiftRight_zero] at hlow
    rw [sha1Out, hlow, byte_of_uint32 x 24 3 rfl (by decide),
      byte_of_uint32 x 16 2 rfl (by decide), byte_of_uint32 x 8 1 rfl (by decide)]
    rfl
  simp only [sha1Digest, sha1Block_eq, hout]
  rfl

theorem copyInto_next {block done piece : List UInt8} {i : ℕ} (hi : i = done.length)
    (hfits : (done ++ piece).length ≤ block.length) :
    copyInto (done ++ block.drop done.length) i piece =
      some ((done ++ piece) ++ block.drop (done ++ piece).length) := by
  subst hi
  rw [List.length_append] at hfits
  have hroom : done.length + piece.length ≤ (done ++ block.drop done.length).length := by
    rw [List.length_append, List.length_drop]
    omega
  rw [copyInto, if_pos hroom, List.take_left, List.drop_append, List.drop_of_length_le (by omega),
    List.nil_append, List.drop_drop, List.length_append]
  congr 3
  omega

theorem sha1PaddedLen_eq {len : ℕ} (h : len < 2 ^ 61) :
    sha1PaddedLen len = ((len + 8) / 64 + 1) * 64 := by
  unfold sha1PaddedLen sizeMax
  omega

theorem sizeSub_eq {a b : ℕ} (hab : b ≤ a) (ha : a ≤ sizeMax) : sizeSub a b = a - b := by
  unfold sizeSub
  unfold sizeMax at *
  omega

/-- INTERNAL: **every write is inside the block, and together they fill it.** -/
theorem sha1Fill_eq {block : List UInt8} (h : data.length < 2 ^ 61)
    (hblock : block.length = sha1PaddedLen data.length) :
    sha1Fill data block = some (filled data) := by
  have hpadded := sha1PaddedLen_eq h
  unfold sha1Fill filled
  dsimp only
  rw [← hpadded]
  generalize sha1PaddedLen data.length = padded at hblock hpadded ⊢
  generalize UInt64.ofNat data.length * 8 = bitlen
  have hmax : padded ≤ sizeMax := by
    rw [hpadded, sizeMax]
    omega
  have hlen : data.length + 9 ≤ padded := by omega
  have hzeros : sizeSub (sizeSub padded data.length) 9 = padded - data.length - 9 := by
    rw [sizeSub_eq (by omega) hmax, sizeSub_eq (by omega) (by omega)]
  have hfirst := @copyInto_next block [] data 0 rfl (by rw [List.nil_append]; omega)
  rw [List.nil_append, List.nil_append, List.length_nil, List.drop_zero] at hfirst
  have hend (done : List UInt8) (hdone : done.length = padded) :
      done ++ block.drop done.length = done := by
    rw [List.drop_of_length_le (by omega), List.append_nil]
  rw [hzeros, hfirst, Option.bind_eq_bind, Option.bind_some,
    sizeSub_eq (by omega : 8 ≤ padded) hmax, sizeSub_eq (by omega : 7 ≤ padded) hmax,
    sizeSub_eq (by omega : 6 ≤ padded) hmax, sizeSub_eq (by omega : 5 ≤ padded) hmax,
    sizeSub_eq (by omega : 4 ≤ padded) hmax, sizeSub_eq (by omega : 3 ≤ padded) hmax,
    sizeSub_eq (by omega : 2 ≤ padded) hmax, sizeSub_eq (by omega : 1 ≤ padded) hmax]
  -- every piece is written where the pieces before it end
  iterate 9
    rw [copyInto_next (by simp <;> omega) (by simp; omega), Option.bind_some]
  rw [copyInto_next (by simp; omega) (by simp; omega), hend _ (by simp; omega)]
  simp only [List.append_assoc, List.cons_append, List.nil_append]

/-- INTERNAL: `mb_sha1` fails only if the allocation does. -/
theorem mbSha1_answer (h : data.length < 2 ^ 61) (answer : Option (ℕ → UInt8)) :
    mbSha1 data answer = some (answer.map fun _ => sha1 data) := by
  cases answer with
  | none => rfl
  | some bytes =>
    have hblock : ((List.range (sha1PaddedLen data.length)).map bytes).length =
        sha1PaddedLen data.length := by
      rw [List.length_map, List.length_range]
    have hfill := sha1Fill_eq h hblock
    rw [filled_eq_pad (by omega)] at hfill
    simp only [mbSha1, hfill, sha1Digest_pad, Option.pure_def, Option.bind_eq_bind,
      Option.bind_some, Option.map_some]

/-- **`mb_sha1` computes SHA-1**: for data of less than `2 ^ 61` bytes and any block the allocator
hands out, every write is inside the block, and the result is the digest of the standard.
SRC: bws.c:73-140 -/
theorem mbSha1_eq_sha1 (data : List UInt8) (bytes : ℕ → UInt8) (h : data.length < 2 ^ 61) :
    mbSha1 data (some bytes) = some (some (sha1 data)) :=
  mbSha1_answer h (some bytes)

/-- The digest of `abc` that the standard's examples give. -/
theorem mbSha1_eq_sha1_abc :
    (ascii "abc").length < 2 ^ 61 ∧
      mbSha1 (ascii "abc") (some fun _ => 0xff) = some (some (sha1 (ascii "abc"))) ∧
      sha1 (ascii "abc") = [0xa9, 0x99, 0x3e, 0x36, 0x47, 0x06, 0x81, 0x6a, 0xba, 0x3e, 0x25, 0x71,
        0x78, 0x50, 0xc2, 0x6c, 0x9c, 0xd0, 0xd8, 0x9d] := by
  have hlen : (ascii "abc").length < 2 ^ 61 := by decide
  have heq := mbSha1_eq_sha1 (ascii "abc") (fun _ => 0xff) hlen
  have hrun : mbSha1 (ascii "abc") (some fun _ => 0xff) =
      some (some [0xa9, 0x99, 0x3e, 0x36, 0x47, 0x06, 0x81, 0x6a, 0xba, 0x3e, 0x25, 0x71,
        0x78, 0x50, 0xc2, 0x6c, 0x9c, 0xd0, 0xd8, 0x9d]) := by
    decide +kernel
  rw [heq] at hrun
  exact ⟨hlen, heq, Option.some.inj (Option.some.inj hrun)⟩

end Sha1

end MsgBroker.Analysis.WsHandshake
