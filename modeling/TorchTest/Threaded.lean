import TorchTest.Library.Chain
import TorchTest.Machine

/-!
# Slots threaded into a list

`threaded` links `n + 1` slots in address order and ends the list with null.
Every refill of the repository comes down to it, however its loop is written.
`chain_threaded` and `wrote_threaded` are what the pools need of it: the slots
form a null-terminated list, and only their links are written.
-/

namespace TorchTest

/-- Link the slots `p, p + stride, …, p + n * stride` in this order. -/
def threaded (link stride : Nat) : Nat → Nat → Machine → Machine
  | 0, p, m => m.storePtr (p + link) 0
  | n + 1, p, m => threaded link stride n (p + stride) (m.storePtr (p + link) (p + stride))

variable {link stride n p : Nat}

/-- Threading stores the links of the slots and nothing else. -/
theorem wrote_threaded (m : Machine) :
    Machine.Wrote (progression (p + link) stride (n + 1)).reverse m
      (threaded link stride n p m) := by
  induction n generalizing p m with
  | zero => exact Machine.wrote_storePtr m _ 0
  | succ n ih =>
    have swap : p + stride + link = p + link + stride := by omega
    have rest := ih (p := p + stride) (m.storePtr (p + link) (p + stride))
    rw [swap] at rest
    rw [progression_succ (p + link), List.reverse_cons]
    exact (Machine.wrote_storePtr m (p + link) (p + stride)).trans rest

/-- The link of a threaded slot lies in the chunk. -/
theorem within_of_mem_links {x : Nat} (room : link + pointerSize ≤ stride)
    (member : x ∈ (progression (p + link) stride (n + 1)).reverse) :
    Interval.Within ⟨x, pointerSize⟩ ⟨p, (n + 1) * stride⟩ := by
  obtain ⟨j, bound, rfl⟩ := mem_progression.mp (List.mem_reverse.mp member)
  have last := Nat.mul_le_mul_right stride bound
  rw [Nat.succ_mul] at last
  exact ⟨by simp only; omega, by simp only [Interval.stop]; omega⟩

/-- Threading changes the chunk only. -/
theorem agreeOn_threaded (m : Machine) {I : Interval} (room : link + pointerSize ≤ stride)
    (separate : Interval.Separate ⟨p, (n + 1) * stride⟩ I) :
    Machine.AgreeOn I m (threaded link stride n p m) :=
  (wrote_threaded m).agreeOn fun _ member =>
    separate.mono (within_of_mem_links room member) (.refl _)

/-- Threading and a byte written elsewhere, in either order. -/
theorem threaded_writeByte (m : Machine) {a : Nat} {b : UInt8} (room : link + pointerSize ≤ stride)
    (outside : a ∉ Interval.mk p ((n + 1) * stride)) :
    threaded link stride n p (m.writeByte a b) = (threaded link stride n p m).writeByte a b := by
  have first : a ∉ Interval.mk (p + link) pointerSize := by
    simp only [Interval.mem_def, Nat.succ_mul] at outside ⊢
    omega
  induction n generalizing p m with
  | zero => exact m.storePtr_writeByte first
  | succ n ih =>
    have rest : a ∉ Interval.mk (p + stride) ((n + 1) * stride) := by
      simp only [Interval.mem_def, Nat.succ_mul] at outside ⊢
      omega
    have second : a ∉ Interval.mk (p + stride + link) pointerSize := by
      simp only [Interval.mem_def, Nat.succ_mul] at rest ⊢
      omega
    rw [threaded, m.storePtr_writeByte first, ih _ rest second, threaded]

/-- The threaded slots form a null-terminated list in address order. -/
theorem chain_threaded (m : Machine) (room : link + pointerSize ≤ stride) (nonzero : 0 < p)
    (bound : p + n * stride < addressSpace) :
    Chain (fun x => (threaded link stride n p m).loadPtr (x + link)) p
      (progression p stride (n + 1)) := by
  induction n generalizing p m with
  | zero =>
    apply Chain.cons (by omega)
    simp only [threaded, progression_zero, Chain.nil_iff]
    exact Machine.loadPtr_storePtr_same _ _ (by decide)
  | succ n ih =>
    rw [Nat.succ_mul] at bound
    apply Chain.cons (by omega)
    -- the later stores stay behind the first slot, so its link survives them
    have kept : (threaded link stride (n + 1) p m).loadPtr (p + link) = p + stride := by
      have agree := agreeOn_threaded (n := n) (p := p + stride)
        (m.storePtr (p + link) (p + stride)) room (I := ⟨p + link, pointerSize⟩)
        (Interval.Apart.separate (Or.inr (by simp only [Interval.stop]; omega)))
      rw [threaded, agree.loadPtr_eq (.refl _)]
      exact Machine.loadPtr_storePtr_same _ _ (by omega)
    rw [kept]
    exact ih _ (by omega) (by omega)

end TorchTest
