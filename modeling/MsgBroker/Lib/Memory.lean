import Mathlib.Algebra.GroupWithZero.Nat
import Mathlib.Data.List.Basic

/-!
# A flat memory of bytes

Memory as a function from addresses to bytes.
-/

set_option autoImplicit false

namespace MsgBroker.Lib

/-- The byte at every address. -/
abbrev Mem := ℕ → UInt8

/-! ## Numbers as bytes -/

/-- The number the bytes stand for, low byte first. -/
def leNat : List UInt8 → ℕ
  | [] => 0
  | b :: bs => b.toNat + 256 * leNat bs

/-- The `n` low bytes of a number, low byte first. -/
def leBytes : ℕ → ℕ → List UInt8
  | 0, _ => []
  | n + 1, v => UInt8.ofNat v :: leBytes n (v / 256)

theorem length_leBytes (n v : ℕ) : (leBytes n v).length = n := by
  induction n generalizing v with
  | zero => rfl
  | succ n ih => exact congrArg (· + 1) (ih (v / 256))

theorem leNat_leBytes (n v : ℕ) : leNat (leBytes n v) = v % 256 ^ n := by
  induction n generalizing v with
  | zero => exact (Nat.mod_one v).symm
  | succ n ih =>
    show (UInt8.ofNat v).toNat + 256 * leNat (leBytes n (v / 256)) = _
    rw [ih, Nat.pow_succ', Nat.mod_mul]
    rfl

theorem leBytes_leNat (bs : List UInt8) : leBytes bs.length (leNat bs) = bs := by
  induction bs with
  | nil => rfl
  | cons b bs ih =>
    have hb : b.toNat < 256 := b.toNat_lt
    have hlow : UInt8.ofNat (b.toNat + 256 * leNat bs) = b := by
      apply UInt8.toNat_inj.mp
      show (b.toNat + 256 * leNat bs) % 256 = b.toNat
      omega
    have hhigh : (b.toNat + 256 * leNat bs) / 256 = leNat bs := by omega
    show UInt8.ofNat (b.toNat + 256 * leNat bs) ::
      leBytes bs.length ((b.toNat + 256 * leNat bs) / 256) = _
    rw [hlow, hhigh, ih]

theorem leNat_append (bs cs : List UInt8) :
    leNat (bs ++ cs) = leNat bs + 256 ^ bs.length * leNat cs := by
  induction bs with
  | nil => simp [leNat]
  | cons b bs ih =>
    show b.toNat + 256 * leNat (bs ++ cs) = b.toNat + 256 * leNat bs + 256 ^ (bs.length + 1) * _
    rw [ih, Nat.pow_succ', Nat.mul_add, Nat.mul_assoc, Nat.add_assoc]

/-! ## Loads and stores -/

namespace Mem

/-- The `n` bytes from the address `a` on. -/
def load (mem : Mem) (a n : ℕ) : List UInt8 := (List.range n).map fun i => mem (a + i)

/-- The bytes are written from the address `a` on. -/
def store (mem : Mem) (a : ℕ) (bytes : List UInt8) : Mem := fun x =>
  if a ≤ x then (bytes[x - a]?).getD (mem x) else mem x

/-- The number of `n` bytes at the address `a`. -/
def loadNat (mem : Mem) (a n : ℕ) : ℕ := leNat (mem.load a n)

/-- A number is written into `n` bytes at the address `a`. -/
def storeNat (mem : Mem) (a n v : ℕ) : Mem := mem.store a (leBytes n v)

variable {mem mem' : Mem} {a n v x : ℕ}

theorem length_load (mem : Mem) (a n : ℕ) : (mem.load a n).length = n := by
  rw [load, List.length_map, List.length_range]

theorem store_of_notMem {bytes : List UInt8} (h : x < a ∨ a + bytes.length ≤ x) :
    mem.store a bytes x = mem x := by
  unfold store
  split
  · rw [List.getElem?_eq_none (by omega), Option.getD_none]
  · rfl

theorem storeNat_of_notMem (h : x < a ∨ a + n ≤ x) : mem.storeNat a n v x = mem x :=
  store_of_notMem (by rwa [length_leBytes])

theorem load_congr (h : ∀ x, a ≤ x → x < a + n → mem x = mem' x) :
    mem.load a n = mem'.load a n := by
  apply List.map_congr_left
  intro i hi
  have hlt := List.mem_range.mp hi
  exact h (a + i) (by omega) (by omega)

theorem loadNat_congr (h : ∀ x, a ≤ x → x < a + n → mem x = mem' x) :
    mem.loadNat a n = mem'.loadNat a n := congrArg leNat (load_congr h)

theorem load_store_of_disjoint {b : ℕ} {bytes : List UInt8}
    (h : a + n ≤ b ∨ b + bytes.length ≤ a) : (mem.store b bytes).load a n = mem.load a n :=
  load_congr fun _ _ _ => store_of_notMem (by omega)

theorem load_store_self (mem : Mem) (a : ℕ) (bytes : List UInt8) :
    (mem.store a bytes).load a bytes.length = bytes := by
  apply List.ext_getElem
  · exact length_load _ _ _
  · intro i hi hi'
    simp [load, store, hi']

theorem loadNat_storeNat (mem : Mem) (a n v : ℕ) :
    (mem.storeNat a n v).loadNat a n = v % 256 ^ n := by
  have hload := load_store_self mem a (leBytes n v)
  rw [length_leBytes] at hload
  rw [loadNat, storeNat, hload, leNat_leBytes]

theorem storeNat_loadNat (mem : Mem) (a n : ℕ) : mem.storeNat a n (mem.loadNat a n) = mem := by
  have hbytes := leBytes_leNat (mem.load a n)
  rw [length_load] at hbytes
  rw [storeNat, loadNat, hbytes]
  funext x
  by_cases hx : a ≤ x ∧ x < a + n
  · have hi : x - a < (mem.load a n).length := by rw [length_load]; omega
    rw [store, if_pos hx.1, List.getElem?_eq_getElem hi, Option.getD_some]
    simp only [load, List.getElem_map, List.getElem_range]
    congr 1
    omega
  · exact store_of_notMem (by rw [length_load]; omega)

theorem loadNat_add (mem : Mem) (a m n : ℕ) :
    mem.loadNat a (m + n) = mem.loadNat a m + 256 ^ m * mem.loadNat (a + m) n := by
  have hsplit : mem.load a (m + n) = mem.load a m ++ mem.load (a + m) n := by
    simp only [load, List.range_add, List.map_append, List.map_map, Function.comp_def,
      Nat.add_assoc]
  rw [loadNat, hsplit, leNat_append, length_load]
  rfl

end Mem

end MsgBroker.Lib
