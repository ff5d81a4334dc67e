import Mathlib.Algebra.BigOperators.Group.Finset.Basic
import Mathlib.Algebra.GroupWithZero.Nat
import Mathlib.Algebra.Order.BigOperators.Group.Finset
import Mathlib.Data.List.Perm.Basic
import Mathlib.Order.Interval.Finset.Nat

/-!
# Half-open intervals of addresses and exact covers

`Interval` is `[start, start + length)`. `cover L x` counts the members of a
list `L` that contain the address `x`. Counting turns "these blocks partition
that memory" into an equation between two functions, which survives
reordering, splitting a block and joining two lists:

* `cover_le_one_iff`: no address is covered twice iff the members are pairwise
  disjoint;
* `Interval.count_split`: cutting an interval in two keeps the cover;
* `sum_range_cover`: the total length is the sum of the cover, so two lists
  with one cover have one total length.

`progression a s k` lists the `k` addresses `a, a + s, …`; the blocks of length
`s` at them cover `[a, a + k * s)` (`cover_progression`).
-/

namespace TorchTest

/-- The addresses `start, …, start + length - 1`. -/
structure Interval where
  start : Nat
  length : Nat
  deriving DecidableEq, Repr

namespace Interval

/-- The first address after the interval. -/
abbrev stop (I : Interval) : Nat := I.start + I.length

instance : Membership Nat Interval := ⟨fun I x => I.start ≤ x ∧ x < I.start + I.length⟩

theorem mem_def {I : Interval} {x : Nat} :
    x ∈ I ↔ I.start ≤ x ∧ x < I.start + I.length := Iff.rfl

instance (x : Nat) (I : Interval) : Decidable (x ∈ I) :=
  inferInstanceAs (Decidable (I.start ≤ x ∧ x < I.start + I.length))

/-- One interval ends before the other starts. -/
def Apart (I J : Interval) : Prop := I.stop ≤ J.start ∨ J.stop ≤ I.start

instance (I J : Interval) : Decidable (Apart I J) :=
  inferInstanceAs (Decidable (I.stop ≤ J.start ∨ J.stop ≤ I.start))

theorem Apart.symm {I J : Interval} (apart : Apart I J) : Apart J I := Or.symm apart

/-- The two intervals share no address. -/
def Separate (I J : Interval) : Prop := ∀ x ∈ I, x ∉ J

theorem Separate.symm {I J : Interval} (separate : Separate I J) : Separate J I :=
  fun x inRight inLeft => separate x inLeft inRight

theorem Apart.separate {I J : Interval} (apart : Apart I J) : Separate I J := by
  intro x left right
  rw [mem_def] at left right
  unfold Apart stop at apart
  omega

/-- `I` lies inside `J`. -/
def Within (I J : Interval) : Prop := J.start ≤ I.start ∧ I.stop ≤ J.stop

instance (I J : Interval) : Decidable (Within I J) :=
  inferInstanceAs (Decidable (J.start ≤ I.start ∧ I.stop ≤ J.stop))

theorem Within.refl (I : Interval) : Within I I := ⟨le_refl _, le_refl _⟩

theorem Within.trans {I J K : Interval} (inner : Within I J) (outer : Within J K) :
    Within I K :=
  ⟨outer.1.trans inner.1, inner.2.trans outer.2⟩

theorem Within.mem {I J : Interval} (within : Within I J) {x : Nat} (inside : x ∈ I) :
    x ∈ J := by
  obtain ⟨lower, upper⟩ := within
  rw [mem_def] at inside ⊢
  unfold stop at upper
  omega

theorem Apart.mono {I I' J J' : Interval} (apart : Apart I J)
    (left : Within I' I) (right : Within J' J) : Apart I' J' := by
  unfold Within Apart stop at *
  omega

theorem Separate.mono {I I' J J' : Interval} (separate : Separate I J)
    (left : Within I' I) (right : Within J' J) : Separate I' J' :=
  fun _ inLeft inRight => separate _ (left.mem inLeft) (right.mem inRight)

/-- Whether an address is in the interval, as a count. -/
def count (I : Interval) (x : Nat) : Nat := if x ∈ I then 1 else 0

theorem count_of_mem {I : Interval} {x : Nat} (inside : x ∈ I) : I.count x = 1 :=
  if_pos inside

theorem count_of_not_mem {I : Interval} {x : Nat} (outside : x ∉ I) : I.count x = 0 :=
  if_neg outside

theorem count_pos_iff {I : Interval} {x : Nat} : 0 < I.count x ↔ x ∈ I := by
  unfold count
  split <;> simp_all

@[simp] theorem count_empty (a x : Nat) : count ⟨a, 0⟩ x = 0 :=
  if_neg fun inside => by
    simp only [mem_def] at inside
    omega

/-- Cutting an interval in two keeps every count. -/
theorem count_split (a k l x : Nat) :
    count ⟨a, k + l⟩ x = count ⟨a, k⟩ x + count ⟨a + k, l⟩ x := by
  unfold count
  simp only [mem_def]
  split_ifs <;> omega

end Interval

/-! ## Covers -/

/-- How many intervals of the list contain `x`. -/
def cover (L : List Interval) (x : Nat) : Nat := (L.map (Interval.count · x)).sum

@[simp] theorem cover_nil (x : Nat) : cover [] x = 0 := rfl

@[simp] theorem cover_cons (I : Interval) (L : List Interval) (x : Nat) :
    cover (I :: L) x = I.count x + cover L x := rfl

theorem cover_perm {L M : List Interval} (perm : L.Perm M) (x : Nat) :
    cover L x = cover M x :=
  (perm.map _).sum_eq

theorem cover_pos_iff {L : List Interval} {x : Nat} : 0 < cover L x ↔ ∃ I ∈ L, x ∈ I := by
  induction L with
  | nil => simp
  | cons I L ih => simp [Interval.count_pos_iff, ih]

theorem cover_eq_zero_iff {L : List Interval} {x : Nat} : cover L x = 0 ↔ ∀ I ∈ L, x ∉ I := by
  rw [← not_iff_not, ← ne_eq, ← Nat.pos_iff_ne_zero, cover_pos_iff]
  simp

/-- No address is covered twice exactly when the members are pairwise disjoint. -/
theorem cover_le_one_iff {L : List Interval} :
    (∀ x, cover L x ≤ 1) ↔ L.Pairwise Interval.Separate := by
  induction L with
  | nil => simp
  | cons I L ih =>
    rw [List.pairwise_cons, ← ih]
    constructor
    · intro once
      refine ⟨fun J member x inI inJ => ?_, fun x => ?_⟩
      · have twice := once x
        have rest := cover_pos_iff.mpr ⟨J, member, inJ⟩
        rw [cover_cons, Interval.count_of_mem inI] at twice
        omega
      · have := once x
        rw [cover_cons] at this
        omega
    · rintro ⟨head, tail⟩ x
      rw [cover_cons]
      by_cases inI : x ∈ I
      · have none : cover L x = 0 :=
          cover_eq_zero_iff.mpr fun J member => head J member x inI
        rw [none, Interval.count_of_mem inI]
      · rw [Interval.count_of_not_mem inI, Nat.zero_add]
        exact tail x

/-! ## Total lengths -/

/-- The summed lengths of the intervals. -/
def totalLength (L : List Interval) : Nat := (L.map Interval.length).sum

@[simp] theorem totalLength_nil : totalLength [] = 0 := rfl

@[simp] theorem totalLength_cons (I : Interval) (L : List Interval) :
    totalLength (I :: L) = I.length + totalLength L := rfl

theorem sum_range_count {I : Interval} {N : Nat} (bound : I.stop ≤ N) :
    ∑ x ∈ Finset.range N, I.count x = I.length := by
  have inside : (Finset.range N).filter (· ∈ I) = Finset.Ico I.start I.stop := by
    ext x
    simp only [Finset.mem_filter, Finset.mem_range, Finset.mem_Ico, Interval.mem_def]
    unfold Interval.stop at bound ⊢
    omega
  simp only [Interval.count]
  rw [← Finset.sum_filter, inside, Finset.sum_const, Nat.card_Ico]
  simp

/-- Summing the cover of intervals below `N` gives their total length. -/
theorem sum_range_cover {L : List Interval} {N : Nat} (bound : ∀ I ∈ L, I.stop ≤ N) :
    ∑ x ∈ Finset.range N, cover L x = totalLength L := by
  induction L with
  | nil => simp
  | cons I L ih =>
    simp only [cover_cons, totalLength_cons, Finset.sum_add_distrib]
    rw [sum_range_count (bound I List.mem_cons_self),
      ih fun J member => bound J (List.mem_cons_of_mem _ member)]

/-- Disjoint intervals between the addresses `1` and `N` have less than `N`
bytes together. -/
theorem totalLength_lt {L : List Interval} {N : Nat} (once : ∀ x, cover L x ≤ 1)
    (nonzero : ∀ I ∈ L, 0 < I.start) (bound : ∀ I ∈ L, I.stop ≤ N) (positive : 0 < N) :
    totalLength L < N := by
  rw [← sum_range_cover bound]
  have zero : cover L 0 = 0 := cover_eq_zero_iff.mpr fun I member inside => by
    have := nonzero I member
    rw [Interval.mem_def] at inside
    omega
  calc ∑ x ∈ Finset.range N, cover L x
      < ∑ _x ∈ Finset.range N, 1 :=
        Finset.sum_lt_sum (fun x _ => once x) ⟨0, Finset.mem_range.mpr positive, by omega⟩
    _ = N := by simp

/-! ## Arithmetic progressions -/

/-- The `k` addresses `a, a + s, …, a + (k - 1) * s`. -/
def progression (a s : Nat) : Nat → List Nat
  | 0 => []
  | k + 1 => a :: progression (a + s) s k

@[simp] theorem progression_zero (a s : Nat) : progression a s 0 = [] := rfl

@[simp] theorem progression_succ (a s k : Nat) :
    progression a s (k + 1) = a :: progression (a + s) s k := rfl

theorem progression_eq_map_range (a s k : Nat) :
    progression a s k = (List.range k).map fun j => a + j * s := by
  induction k generalizing a with
  | zero => rfl
  | succ k ih =>
    rw [progression_succ, ih, List.range_succ_eq_map]
    simp only [List.map_cons, List.map_map, Nat.zero_mul, Nat.add_zero]
    congr 1
    apply List.map_congr_left
    intro j _
    simp only [Function.comp_apply, Nat.succ_mul]
    omega

/-- A progression in two parts. -/
theorem progression_add (a s j k : Nat) :
    progression a s (j + k) = progression a s j ++ progression (a + j * s) s k := by
  induction j generalizing a with
  | zero => simp
  | succ j ih =>
    rw [Nat.succ_add, progression_succ, ih, progression_succ, List.cons_append,
      Nat.succ_mul, Nat.add_comm (j * s), Nat.add_assoc]

/-- A progression cut at one of its addresses. -/
theorem progression_split {a s j k : Nat} (le : j ≤ k) :
    progression a s k = progression a s j ++ progression (a + j * s) s (k - j) := by
  rw [← progression_add, Nat.add_sub_cancel' le]

/-- The last address of a progression. -/
theorem progression_concat (a s k : Nat) :
    progression a s (k + 1) = progression a s k ++ [a + k * s] :=
  progression_add a s k 1

/-- The front of a progression. -/
theorem take_progression {a s j k : Nat} (le : j ≤ k) :
    (progression a s k).take j = progression a s j := by
  rw [progression_eq_map_range, progression_eq_map_range, ← List.map_take, List.take_range,
    Nat.min_eq_left le]

@[simp] theorem length_progression (a s k : Nat) : (progression a s k).length = k := by
  rw [progression_eq_map_range, List.length_map, List.length_range]

theorem mem_progression {a s k x : Nat} :
    x ∈ progression a s k ↔ ∃ j < k, x = a + j * s := by
  rw [progression_eq_map_range]
  simp only [List.mem_map, List.mem_range, eq_comm]

/-- The blocks of length `s` at a progression of step `s` tile one interval. -/
theorem cover_progression (a s k x : Nat) :
    cover ((progression a s k).map (⟨·, s⟩)) x = Interval.count ⟨a, k * s⟩ x := by
  induction k generalizing a with
  | zero => simp
  | succ k ih =>
    rw [progression_succ, List.map_cons, cover_cons, ih, Nat.succ_mul, Nat.add_comm (k * s),
      Interval.count_split]

end TorchTest
