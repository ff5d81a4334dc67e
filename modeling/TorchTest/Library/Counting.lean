import Mathlib.Algebra.BigOperators.Group.Finset.Piecewise
import Mathlib.Algebra.BigOperators.Ring.Finset
import Mathlib.Algebra.Order.BigOperators.Group.Finset

/-!
# Counting the members of a finite family that pass a test

`count p f` is how many `t` have `p (f t)`, for a family `f` over any finite
index type. A transition of one member shows up as `count_update`: the count
moves by what the test says of the old and of the new value, and by nothing
else. Invariants that compare such counts then follow by linear arithmetic.
-/

namespace TorchTest

variable {τ β : Type*}

/-- Replacing one term moves a sum by that term only. -/
theorem sum_update_add [DecidableEq τ] {s : Finset τ} {t : τ} (member : t ∈ s) (g : τ → Nat)
    (v : Nat) : ∑ u ∈ s, Function.update g t v u + g t = ∑ u ∈ s, g u + v := by
  rw [Finset.sum_update_of_mem member, Finset.sum_eq_add_sum_sdiff_singleton_of_mem member]
  omega

variable [Fintype τ]

/-- How many members of the family pass the test. -/
def count (p : β → Bool) (f : τ → β) : Nat := ∑ t, (p (f t)).toNat

variable {p : β → Bool} {f : τ → β}

theorem count_eq_zero_iff : count p f = 0 ↔ ∀ t, p (f t) = false := by
  simp [count]

theorem count_pos_iff : 0 < count p f ↔ ∃ t, p (f t) = true := by
  rw [Nat.pos_iff_ne_zero, ne_eq, count_eq_zero_iff]
  simp

/-- Replacing one member moves the count by that member only. -/
theorem count_update [DecidableEq τ] (p : β → Bool) (f : τ → β) (t : τ) (x : β) :
    count p (Function.update f t x) + (p (f t)).toNat = count p f + (p x).toNat := by
  have swap : (fun u => (p (Function.update f t x u)).toNat) =
      Function.update (fun u => (p (f u)).toNat) t (p x).toNat := by
    funext u
    exact Function.apply_update (fun _ y => (p y).toNat) f t x u
  rw [count, swap]
  exact sum_update_add (Finset.mem_univ t) _ _

/-! ## Weights -/

/-- The weight of a family, member by member. -/
def weight (g : β → Nat) (f : τ → β) : Nat := ∑ t, g (f t)

/-- Replacing one member moves the weight by that member only. -/
theorem weight_update [DecidableEq τ] (g : β → Nat) (f : τ → β) (t : τ) (x : β) :
    weight g (Function.update f t x) + g (f t) = weight g f + g x := by
  have swap : (fun u => g (Function.update f t x u)) =
      Function.update (fun u => g (f u)) t (g x) := by
    funext u
    exact Function.apply_update (fun _ y => g y) f t x u
  rw [weight, swap]
  exact sum_update_add (Finset.mem_univ t) _ _

/-- Members of weight at most `n` each, and only those that pass a test. -/
theorem weight_le {g : β → Nat} {n : Nat} (bound : ∀ t, g (f t) ≤ n * (p (f t)).toNat) :
    weight g f ≤ n * count p f := by
  rw [weight, count, Finset.mul_sum]
  exact Finset.sum_le_sum fun t _ => bound t

end TorchTest
