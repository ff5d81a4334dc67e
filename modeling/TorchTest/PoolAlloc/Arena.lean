import Mathlib.Logic.Function.Basic
import TorchTest.Library.Interval
import TorchTest.PoolAlloc.Source

/-!
# The segregated pool without memory

What `__pool_alloc` is for: sixteen lists of free blocks, kept as lists, and one
remainder. A request takes the head of the list of its class. When the list is
empty, an interval is obtained, and as many blocks of the class as fit, at most
twenty, are carved off its front:

* the remainder, if it holds a block; otherwise it is set aside as a free block;
* a region granted by the system, for forty blocks and a sixteenth of what was
  granted before;
* if the system refuses, the first free block of the class or a larger one.
-/

namespace TorchTest.PoolAlloc

/-- The bytes of a block of class `c`. -/
def classSize (c : Nat) : Nat := align * (c + 1)

/-- The class that serves a request. -/
def classOf (bytes : Nat) : Nat := (bytes + 7) / 8 - 1

/-- The free blocks by class, the remainder, and the bytes granted so far. -/
structure Arena where
  lists : Nat → List Nat
  rem : Interval
  heapSize : Nat

namespace Arena

def init : Arena := { lists := fun _ => [], rem := ⟨0, 0⟩, heapSize := 0 }

/-- Replace the list of a class. -/
def setList (A : Arena) (c : Nat) (l : List Nat) : Arena :=
  { A with lists := Function.update A.lists c l }

/-- Give a block of class `c` back. -/
def release (A : Arena) (c p : Nat) : Arena := A.setList c (p :: A.lists c)

/-- File the remainder, if any, under its length. -/
def setAside (A : Arena) : Arena :=
  if 0 < A.rem.length then { A.release (classOf A.rem.length) A.rem.start with rem := ⟨0, 0⟩ }
  else { A with rem := ⟨0, 0⟩ }

/-- The bytes to ask for when class `c` runs dry. -/
def wanted (A : Arena) (c : Nat) : Nat := 40 * classSize c + (A.heapSize / 16 + 7) / 8 * 8

/-- Take a granted region as the remainder. -/
def grow (A : Arena) (c base : Nat) : Arena :=
  { A with rem := ⟨base, A.wanted c⟩, heapSize := A.heapSize + A.wanted c }

/-- The first class from `c` on with a free block. -/
def firstFree (A : Arena) (c : Nat) : Option Nat :=
  (List.range' c (freeListSize - c)).find? fun i => !(A.lists i).isEmpty

/-- Take a free block of class `i` as the remainder. -/
def reuse (A : Arena) (i : Nat) : Arena :=
  { A.setList i (A.lists i).tail with rem := ⟨(A.lists i).headD 0, classSize i⟩ }

/-- Make the remainder hold a block of class `c`; `false` if there is no memory. -/
def obtain (A : Arena) (c : Nat) (answer : Option Nat) : Arena × Bool :=
  if classSize c ≤ A.rem.length then (A, true)
  else
    match answer with
    | some base => (A.setAside.grow c base, true)
    | none =>
        match A.setAside.firstFree c with
        | some i => (A.setAside.reuse i, true)
        | none => (A.setAside, false)

/-- How many blocks of class `c` are carved off the remainder. -/
def carved (A : Arena) (c : Nat) : Nat := min 20 (A.rem.length / classSize c)

/-- Carve blocks of class `c` off the remainder, the first for the caller. -/
def carve (A : Arena) (c : Nat) : Arena :=
  let k := A.carved c
  { A.setList c (progression (A.rem.start + classSize c) (classSize c) (k - 1)) with
    rem := ⟨A.rem.start + k * classSize c, A.rem.length - k * classSize c⟩ }

/-- A request for a block of class `c`. -/
def allocate (A : Arena) (c : Nat) (answer : Option Nat) : Arena × Option Nat :=
  match A.lists c with
  | p :: rest => (A.setList c rest, some p)
  | [] =>
      match A.obtain c answer with
      | (A, true) => (A.carve c, some A.rem.start)
      | (A, false) => (A, none)

end Arena

/-! ## Sizes and classes -/

theorem classSize_pos (c : Nat) : 0 < classSize c := Nat.mul_pos (by decide) (Nat.succ_pos c)

theorem classSize_lt {c : Nat} (small : c < freeListSize) : classSize c ≤ maxBytes :=
  Nat.mul_le_mul_left align small

theorem pointerSize_le_classSize (c : Nat) : pointerSize ≤ classSize c :=
  Nat.le_mul_of_pos_right align (Nat.succ_pos c)

theorem classOf_lt {bytes : Nat} (small : bytes ≤ maxBytes) : classOf bytes < freeListSize := by
  simp only [classOf, freeListSize, maxBytes, align] at *
  omega

/-- A request fits its class. -/
theorem le_classSize {bytes : Nat} : bytes ≤ classSize (classOf bytes) := by
  simp only [classSize, classOf, align]
  omega

/-- A length that is a multiple of 8 is the block size of its class. -/
theorem classSize_classOf {bytes : Nat} (positive : 0 < bytes) (aligned : align ∣ bytes) :
    classSize (classOf bytes) = bytes := by
  obtain ⟨k, rfl⟩ := aligned
  simp only [classSize, classOf, align] at *
  omega

theorem classOf_classSize (c : Nat) : classOf (classSize c) = c := by
  simp only [classSize, classOf, align]
  omega

/-- `__bytes + _S_align - 1`, as the source writes it. -/
theorem add_align_sub_one {bytes : Nat} (bound : bytes + 8 < addressSpace) :
    SizeT.sub (SizeT.add bytes align) 1 = bytes + 7 := by
  rw [SizeT.add_eq bound, SizeT.sub_eq (Nat.succ_le_of_lt (Nat.succ_pos _)) bound]
  rfl

theorem getFreeList_eq {bytes : Nat} (positive : 0 < bytes) (small : bytes ≤ maxBytes) :
    getFreeList bytes = classOf bytes := by
  have space : addressSpace = 18446744073709551616 := rfl
  simp only [maxBytes] at small
  rw [getFreeList, add_align_sub_one (by omega), SizeT.sub_eq, classOf]
  · simp only [align]
    omega
  · simp only [align]
    omega

theorem getFreeList_classSize {c : Nat} (small : c < freeListSize) :
    getFreeList (classSize c) = c :=
  (getFreeList_eq (classSize_pos c) (classSize_lt small)).trans (classOf_classSize c)

/-- `__n * __nobjs`, for twenty objects of a class. -/
theorem mul_twenty {c : Nat} (small : c < freeListSize) :
    SizeT.mul (classSize c) 20 = classSize c * 20 :=
  SizeT.mul_eq ((Nat.mul_le_mul_right 20 (classSize_lt small)).trans_lt (by decide))

/-- A link fits into a block of every class. -/
theorem link_within (p c : Nat) : Interval.Within ⟨p, pointerSize⟩ ⟨p, classSize c⟩ :=
  ⟨le_refl _, Nat.add_le_add_left (pointerSize_le_classSize c) p⟩

/-- Masking the low three bits rounds down to a multiple of 8. -/
theorem and_mask {x : Nat} (bound : x < addressSpace) :
    x &&& (addressSpace - 1 ^^^ (align - 1)) = x / 8 * 8 := by
  have low : x &&& (align - 1) = x % 2 ^ 3 := Nat.and_two_pow_sub_one_eq_mod x 3
  have all : x &&& (addressSpace - 1) = x :=
    (Nat.and_two_pow_sub_one_eq_mod x 64).trans (Nat.mod_eq_of_lt bound)
  have eight : x / 8 * 8 = x / 2 ^ 3 * 2 ^ 3 := rfl
  rw [Nat.and_xor_distrib_left, all, low, eight]
  refine Nat.eq_of_testBit_eq fun i => ?_
  rw [Nat.testBit_xor, Nat.testBit_mod_two_pow, Nat.testBit_mul_two_pow, Nat.testBit_div_two_pow]
  by_cases small : i < 3
  · simp [small]
  · simp [small, Nat.le_of_not_lt small]

theorem roundUp_eq {bytes : Nat} (bound : bytes + 8 < addressSpace) :
    roundUp bytes = (bytes + 7) / 8 * 8 := by
  rw [roundUp, add_align_sub_one bound, and_mask (by omega)]

/-- The rounded request is the block size of its class. -/
theorem roundUp_eq_classSize {bytes : Nat} (positive : 0 < bytes) (small : bytes ≤ maxBytes) :
    roundUp bytes = classSize (classOf bytes) := by
  have space : addressSpace = 18446744073709551616 := rfl
  simp only [maxBytes] at small
  rw [roundUp_eq (by omega), classSize, classOf]
  simp only [align]
  omega

end TorchTest.PoolAlloc
