import Mathlib.Data.Nat.ModEq
import Mathlib.Tactic.Ring

/-!
# Byte-addressed memory

A memory is a total function from addresses to bytes. Integers of `n` bytes
are stored at an address least significant byte first, as on x86-64.

* `Mem.load_store_same` reads a stored integer back, modulo the stored width;
* `Mem.store_outside` is the frame rule of a store, byte by byte;
* `Mem.load_congr` says which bytes a load depends on;
* `Mem.store_setByte` swaps a store and a byte elsewhere.
-/

namespace TorchTest

/-- A byte-addressed memory. -/
abbrev Mem := Nat → UInt8

namespace Mem

/-- Overwrite one byte. -/
def setByte (m : Mem) (a : Nat) (v : UInt8) : Mem := fun x => if x = a then v else m x

/-- The little-endian integer in the `n` bytes from `a` on. -/
def load (m : Mem) (a : Nat) : Nat → Nat
  | 0 => 0
  | n + 1 => (m a).toNat + 256 * load m (a + 1) n

/-- Store the low `n` bytes of `v` from `a` on, least significant first. -/
def store (m : Mem) (a : Nat) : Nat → Nat → Mem
  | 0, _ => m
  | n + 1, v => store (m.setByte a (UInt8.ofNat v)) (a + 1) n (v / 256)

@[simp] theorem setByte_same (m : Mem) (a : Nat) (v : UInt8) : m.setByte a v a = v :=
  if_pos rfl

theorem setByte_other (m : Mem) {a x : Nat} (v : UInt8) (other : x ≠ a) :
    m.setByte a v x = m x :=
  if_neg other

@[simp] theorem load_zero (m : Mem) (a : Nat) : m.load a 0 = 0 := rfl

theorem load_succ (m : Mem) (a n : Nat) :
    m.load a (n + 1) = (m a).toNat + 256 * m.load (a + 1) n := rfl

theorem store_succ (m : Mem) (a n v : Nat) :
    m.store a (n + 1) v = (m.setByte a (UInt8.ofNat v)).store (a + 1) n (v / 256) := rfl

/-- A store changes no byte outside the `n` bytes it writes. -/
theorem store_outside (m : Mem) {a n v x : Nat} (outside : x < a ∨ a + n ≤ x) :
    m.store a n v x = m x := by
  induction n generalizing m a v with
  | zero => rfl
  | succ n ih =>
    rw [store_succ, ih _ (by omega), setByte_other]
    omega

/-- A load depends on the bytes it reads only. -/
theorem load_congr {m m' : Mem} {a n : Nat} (same : ∀ x, a ≤ x → x < a + n → m x = m' x) :
    m.load a n = m'.load a n := by
  induction n generalizing a with
  | zero => rfl
  | succ n ih =>
    rw [load_succ, load_succ, same a (le_refl a) (by omega),
      ih fun x lower upper => same x (by omega) (by omega)]

/-- Reading back an `n`-byte integer gives what was stored, modulo its width. -/
theorem load_store_same (m : Mem) (a n v : Nat) : (m.store a n v).load a n = v % 256 ^ n := by
  induction n generalizing m a v with
  | zero => simp [Nat.mod_one]
  | succ n ih =>
    have low : ((m.store a (n + 1) v) a).toNat = v % 256 := by
      rw [store_succ, store_outside _ (by omega), setByte_same, UInt8.toNat_ofNat']
    rw [load_succ, low, store_succ, ih, pow_succ, Nat.mul_comm (256 ^ n), Nat.mod_mul]

/-- A load misses a store to other bytes. -/
theorem load_store_apart (m : Mem) {a n b k v : Nat} (apart : a + n ≤ b ∨ b + k ≤ a) :
    (m.store b k v).load a n = m.load a n :=
  load_congr fun _ lower upper => store_outside m (by omega)

/-- A byte and a store elsewhere, in either order. -/
theorem store_setByte (m : Mem) {a n v x : Nat} {b : UInt8} (outside : x < a ∨ a + n ≤ x) :
    (m.setByte x b).store a n v = (m.store a n v).setByte x b := by
  induction n generalizing m a v with
  | zero => rfl
  | succ n ih =>
    have swap : (m.setByte x b).setByte a (UInt8.ofNat v) =
        (m.setByte a (UInt8.ofNat v)).setByte x b := by
      funext y
      unfold setByte
      split_ifs
      · omega
      · rfl
      · rfl
      · rfl
    rw [store_succ, swap, ih _ (by omega), store_succ]

end Mem

end TorchTest
