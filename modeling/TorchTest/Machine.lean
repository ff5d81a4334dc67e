import TorchTest.Library.Memory
import TorchTest.Library.Interval

/-!
# Pointers and `size_t` on x86-64

The allocators of this repository do two things to memory: they read and write
the pointer at an address, and they ask the system for a region. This module
fixes the first: `size_t` and pointer arithmetic modulo `2 ^ 64`, and a
`Machine` holding the bytes together with the addresses of all pointer stores
made so far, so that "wrote nothing" can be told from "wrote the same bytes".
-/

namespace TorchTest

/-- One more than the largest `size_t` or address. -/
abbrev addressSpace : Nat := 2 ^ 64

/-- `sizeof(void*)`. -/
abbrev pointerSize : Nat := 8

theorem pointerSize_pos : 0 < pointerSize := by decide

namespace SizeT

/-- `a + b` on `size_t`, and a pointer moved by `b` bytes. -/
def add (a b : Nat) : Nat := (a + b) % addressSpace

/-- `a - b` on `size_t`, and the distance of two pointers. -/
def sub (a b : Nat) : Nat := (a + (addressSpace - b % addressSpace)) % addressSpace

/-- `a * b` on `size_t`. -/
def mul (a b : Nat) : Nat := a * b % addressSpace

theorem add_eq {a b : Nat} (fits : a + b < addressSpace) : add a b = a + b :=
  Nat.mod_eq_of_lt fits

theorem sub_eq {a b : Nat} (le : b ≤ a) (fits : a < addressSpace) : sub a b = a - b := by
  unfold sub
  rw [Nat.mod_eq_of_lt (le.trans_lt fits)]
  have : a + (addressSpace - b) = a - b + addressSpace := by omega
  rw [this, Nat.add_mod_right, Nat.mod_eq_of_lt (by omega)]

theorem mul_eq {a b : Nat} (fits : a * b < addressSpace) : mul a b = a * b :=
  Nat.mod_eq_of_lt fits

end SizeT

/-- The bytes of memory, and the addresses of the pointers stored by the code
under study, newest first. -/
structure Machine where
  mem : Mem
  stores : List Nat

namespace Machine

/-- All bytes zero, nothing stored. -/
def zero : Machine := { mem := fun _ => 0, stores := [] }

/-- The pointer at address `a`. -/
def loadPtr (m : Machine) (a : Nat) : Nat := m.mem.load a pointerSize

/-- Store the pointer `v` at address `a`. -/
def storePtr (m : Machine) (a v : Nat) : Machine :=
  { mem := m.mem.store a pointerSize v, stores := a :: m.stores }

/-- A client writes one byte of its own block. -/
def writeByte (m : Machine) (a : Nat) (v : UInt8) : Machine :=
  { m with mem := m.mem.setByte a v }

@[simp] theorem stores_storePtr (m : Machine) (a v : Nat) :
    (m.storePtr a v).stores = a :: m.stores := rfl

theorem loadPtr_storePtr_same (m : Machine) (a : Nat) {v : Nat} (fits : v < addressSpace) :
    (m.storePtr a v).loadPtr a = v := by
  have width : (256 : Nat) ^ pointerSize = addressSpace := by decide
  rw [loadPtr, storePtr, Mem.load_store_same, width, Nat.mod_eq_of_lt fits]

/-- The two machines agree on every byte of `I`. -/
def AgreeOn (I : Interval) (m m' : Machine) : Prop := ∀ x ∈ I, m'.mem x = m.mem x

theorem AgreeOn.refl (I : Interval) (m : Machine) : AgreeOn I m m := fun _ _ => rfl

theorem AgreeOn.trans {I : Interval} {m m' m'' : Machine} (first : AgreeOn I m m')
    (second : AgreeOn I m' m'') : AgreeOn I m m'' :=
  fun x inside => (second x inside).trans (first x inside)

theorem AgreeOn.mono {I J : Interval} {m m' : Machine} (agree : AgreeOn J m m')
    (within : I.Within J) : AgreeOn I m m' :=
  fun x inside => agree x (within.mem inside)

/-- A pointer inside an unchanged interval is unchanged. -/
theorem AgreeOn.loadPtr_eq {I : Interval} {m m' : Machine} (agree : AgreeOn I m m') {a : Nat}
    (within : Interval.Within ⟨a, pointerSize⟩ I) : m'.loadPtr a = m.loadPtr a :=
  Mem.load_congr fun x lower upper => agree x (within.mem ⟨lower, upper⟩)

/-- A byte write leaves every interval alone that it misses. -/
theorem agreeOn_writeByte {I : Interval} (m : Machine) {a : Nat} (v : UInt8)
    (outside : a ∉ I) : AgreeOn I m (m.writeByte a v) := by
  intro x inside
  apply Mem.setByte_other
  rintro rfl
  exact outside inside

/-- A byte write and a pointer store elsewhere, in either order. -/
theorem storePtr_writeByte (m : Machine) {a p v : Nat} {b : UInt8}
    (outside : a ∉ Interval.mk p pointerSize) :
    (m.writeByte a b).storePtr p v = (m.storePtr p v).writeByte a b := by
  simp only [Interval.mem_def] at outside
  have swap : (m.mem.setByte a b).store p pointerSize v =
      (m.mem.store p pointerSize v).setByte a b := Mem.store_setByte m.mem (by omega)
  simp only [storePtr, writeByte, swap]

/-- From `m` to `m'` exactly the pointers at the addresses `L` were stored,
newest first, and every byte outside them kept its value. -/
structure Wrote (L : List Nat) (m m' : Machine) : Prop where
  stores : m'.stores = L ++ m.stores
  others : ∀ x, (∀ a ∈ L, x ∉ Interval.mk a pointerSize) → m'.mem x = m.mem x

theorem Wrote.refl (m : Machine) : Wrote [] m m := ⟨rfl, fun _ _ => rfl⟩

theorem wrote_storePtr (m : Machine) (a v : Nat) : Wrote [a] m (m.storePtr a v) where
  stores := rfl
  others x outside := by
    have miss := outside a (List.mem_singleton_self a)
    simp only [Interval.mem_def] at miss
    exact Mem.store_outside _ (by omega)

theorem Wrote.trans {L L' : List Nat} {m m' m'' : Machine} (first : Wrote L m m')
    (second : Wrote L' m' m'') : Wrote (L' ++ L) m m'' where
  stores := by rw [second.stores, first.stores, List.append_assoc]
  others x outside := by
    rw [second.others x fun a member => outside a (List.mem_append_left _ member),
      first.others x fun a member => outside a (List.mem_append_right _ member)]

/-- Stores leave every interval alone that their bytes miss. -/
theorem Wrote.agreeOn {L : List Nat} {m m' : Machine} {I : Interval} (wrote : Wrote L m m')
    (separate : ∀ a ∈ L, Interval.Separate ⟨a, pointerSize⟩ I) : AgreeOn I m m' :=
  fun x inside => wrote.others x fun a member hit => separate a member x hit inside

end Machine

end TorchTest
