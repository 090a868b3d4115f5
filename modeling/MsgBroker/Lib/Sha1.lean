import Mathlib.Algebra.GroupWithZero.Nat
import Mathlib.Data.List.Basic
import Mathlib.Tactic.Common

/-!
# SHA-1

The secure hash algorithm of FIPS 180-4 for messages of whole bytes: padding (section 5.1.1), the
functions and constants of a round (4.1.1, 4.2.1), the message schedule and the compression of a
block (6.1.2).
-/

set_option autoImplicit false

namespace MsgBroker.Lib

/-- The bytes of a value, highest first. -/
def bigEndian (n v : ℕ) : List UInt8 :=
  (List.range n).map fun i => UInt8.ofNat (v / 256 ^ (n - 1 - i))

namespace Sha1

/-- The hash value between two blocks, and the working variables of a block. -/
structure State where
  a : UInt32
  b : UInt32
  c : UInt32
  d : UInt32
  e : UInt32
deriving DecidableEq, Repr

/-- `ROTL`. -/
def rotl (n x : UInt32) : UInt32 := (x <<< n) ||| (x >>> (32 - n))

/-- The function of a round: `Ch`, `Parity`, `Maj`, `Parity`. -/
def f (t : ℕ) (x y z : UInt32) : UInt32 :=
  if t < 20 then (x &&& y) ^^^ (~~~x &&& z)
  else if t < 40 then x ^^^ y ^^^ z
  else if t < 60 then (x &&& y) ^^^ (x &&& z) ^^^ (y &&& z)
  else x ^^^ y ^^^ z

/-- The constant of a round. -/
def k (t : ℕ) : UInt32 :=
  if t < 20 then 0x5a827999
  else if t < 40 then 0x6ed9eba1
  else if t < 60 then 0x8f1bbcdc
  else 0xca62c1d6

/-- The message schedule of a block of sixteen words. -/
def schedule (m : ℕ → UInt32) (t : ℕ) : UInt32 :=
  if t < 16 then m t
  else
    rotl 1 (schedule m (t - 3) ^^^ schedule m (t - 8) ^^^ schedule m (t - 14) ^^^
      schedule m (t - 16))
termination_by t

/-- One round. -/
def round (w : ℕ → UInt32) (s : State) (t : ℕ) : State :=
  ⟨rotl 5 s.a + f t s.b s.c s.d + s.e + k t + w t, s.a, rotl 30 s.b, s.c, s.d⟩

/-- The eighty rounds of a block. -/
def compress (h : State) (m : ℕ → UInt32) : State :=
  let s := (List.range 80).foldl (round (schedule m)) h
  ⟨h.a + s.a, h.b + s.b, h.c + s.c, h.d + s.d, h.e + s.e⟩

/-- The initial hash value. -/
def initial : State := ⟨0x67452301, 0xefcdab89, 0x98badcfe, 0x10325476, 0xc3d2e1f0⟩

/-- The padded message: a one bit, zeros up to 64 bits below a block, and the length in bits. -/
def pad (m : List UInt8) : List UInt8 :=
  m ++ 0x80 :: List.replicate ((119 - m.length % 64) % 64) 0 ++ bigEndian 8 (8 * m.length)

/-- A word of the padded message. -/
def word (p : List UInt8) (n : ℕ) : UInt32 :=
  UInt32.ofNat ((p.getD (4 * n) 0).toNat * 2 ^ 24 + (p.getD (4 * n + 1) 0).toNat * 2 ^ 16 +
    (p.getD (4 * n + 2) 0).toNat * 2 ^ 8 + (p.getD (4 * n + 3) 0).toNat)

/-- The bytes of the hash value. -/
def digest (h : State) : List UInt8 :=
  bigEndian 4 h.a.toNat ++ bigEndian 4 h.b.toNat ++ bigEndian 4 h.c.toNat ++
    bigEndian 4 h.d.toNat ++ bigEndian 4 h.e.toNat

end Sha1

open Sha1 in
/-- SHA-1. -/
def sha1 (m : List UInt8) : List UInt8 :=
  digest ((List.range ((pad m).length / 64)).foldl
    (fun h i => compress h fun t => word (pad m) (16 * i + t)) initial)

@[simp] theorem length_bigEndian (n v : ℕ) : (bigEndian n v).length = n := by
  simp [bigEndian]

@[simp] theorem length_sha1 (m : List UInt8) : (sha1 m).length = 20 := by
  simp [sha1, Sha1.digest]

end MsgBroker.Lib
