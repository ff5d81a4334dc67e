import TorchTest.FixedPool.Source
import TorchTest.Threaded

/-!
# The threading loops of the fixed-size pools

Both loops of the source compute `threaded` while no pointer runs past the
address space: the counted loop of `allocator` and `MyAllocator`, which reads
each next pointer back from memory (`threadCounted_eq`), and the loop of
`Screen`, which stops on a pointer comparison (`threadTo_eq`).
-/

namespace TorchTest.FixedPool

variable {link stride n p : Nat}

theorem threadCounted_eq (m : Machine) (bound : p + n * stride < addressSpace) :
    threadCounted stride n p m = threaded 0 stride n p m := by
  induction n generalizing p m with
  | zero => rfl
  | succ n ih =>
    rw [Nat.succ_mul] at bound
    have next : SizeT.add p stride = p + stride := SizeT.add_eq (by omega)
    simp only [threadCounted, threaded, Nat.add_zero]
    rw [next, Machine.loadPtr_storePtr_same _ _ (by omega)]
    exact ih _ (by omega)

theorem threadTo_eq (m : Machine) {fuel : Nat} (positive : 0 < stride)
    (bound : p + n * stride < addressSpace) (enough : n < fuel) :
    threadTo stride link (p + n * stride) fuel p m = some (threaded link stride n p m) := by
  induction n generalizing p m fuel with
  | zero =>
    obtain ⟨fuel, rfl⟩ := Nat.exists_eq_add_of_lt enough
    simp [threadTo, threaded]
  | succ n ih =>
    obtain ⟨fuel, rfl⟩ : ∃ k, fuel = k + 1 := ⟨fuel - 1, by omega⟩
    rw [Nat.succ_mul] at bound ⊢
    have next : SizeT.add p stride = p + stride := SizeT.add_eq (by omega)
    have more : p ≠ p + (n * stride + stride) := by omega
    have last : p + (n * stride + stride) = p + stride + n * stride := by omega
    rw [threadTo, if_neg more, next, last, ih _ (by omega) (by omega), threaded]

end TorchTest.FixedPool
