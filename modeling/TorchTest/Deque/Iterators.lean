import Mathlib.Algebra.Ring.Int.Defs
import Mathlib.Tactic.LinearCombination
import Mathlib.Tactic.Ring
import Mathlib.Tactic.Zify
import TorchTest.Deque.Steps

/-!
# Iterators of a deque

`IterAt T map s ps m it`: the iterator `it` is at the slot with number `m` of the nodes `ps`,
which the map has from the index `s` on. Iterators are moved and compared as the numbers are:
`operator+=` adds, `operator-` subtracts, `operator<` and `operator==` compare. So `begin()`
and what is reached from it give the elements in order.
-/

namespace TorchTest.Deque

/-- The iterator is at slot `m` of the nodes. -/
def IterAt (T : ElemType) (s : Nat) (ps : List Nat) (m : Nat) (it : Iter) : Prop :=
  ∃ p, ps[m / T.bufSize]? = some p ∧ it = slotIter T p (m % T.bufSize) (s + m / T.bufSize)

variable {T : ElemType} {map : List (Option Nat)} {s m m' : Nat} {ps : List Nat} {it it' : Iter}

/-- The slot `m` of the nodes. -/
theorem getElem?_flatMap_slots {p : Nat} (node : ps[m / T.bufSize]? = some p) :
    (ps.flatMap T.slots)[m]? = some (p + m % T.bufSize * T.size) := by
  induction ps generalizing m with
  | nil => exact absurd node (by simp)
  | cons q ps ih =>
    rw [List.flatMap_cons]
    rcases Nat.lt_or_ge m T.bufSize with less | more
    · rw [Nat.div_eq_of_lt less, List.getElem?_cons_zero] at node
      rw [List.getElem?_append_left (by rwa [ElemType.length_slots]), Nat.mod_eq_of_lt less,
        ← Option.some.inj node, ElemType.slots, progression_eq_map_range, List.getElem?_map,
        List.getElem?_range less]
      rfl
    · obtain ⟨k, rfl⟩ := Nat.exists_eq_add_of_le more
      rw [Nat.add_comm, Nat.add_div_right k T.bufSize_pos, List.getElem?_cons_succ] at node
      rw [List.getElem?_append_right (by rwa [ElemType.length_slots]), ElemType.length_slots,
        Nat.add_sub_cancel_left, ih node, Nat.add_mod_left]

/-- Slots have a node. -/
theorem exists_node (less : m < ps.length * T.bufSize) : ∃ p, ps[m / T.bufSize]? = some p := by
  have inside : m / T.bufSize < ps.length := Nat.div_lt_of_lt_mul (by rwa [Nat.mul_comm])
  exact ⟨_, List.getElem?_eq_getElem inside⟩

namespace IterAt

theorem cur (iter : IterAt T s ps m it) : (ps.flatMap T.slots)[m]? = some it.cur := by
  obtain ⟨p, node, rfl⟩ := iter
  exact getElem?_flatMap_slots node

theorem unique (iter : IterAt T s ps m it) (iter' : IterAt T s ps m it') : it = it' := by
  obtain ⟨p, node, rfl⟩ := iter
  obtain ⟨p', node', rfl⟩ := iter'
  rw [node] at node'
  cases node'
  rfl

/-- `operator==`. -/
theorem same_iff (nodup : (ps.flatMap T.slots).Nodup) (iter : IterAt T s ps m it)
    (iter' : IterAt T s ps m' it') : it.same it' = true ↔ m = m' := by
  have here := iter.cur
  have there := iter'.cur
  rw [Iter.same, decide_eq_true_iff]
  constructor
  · intro equal
    rw [equal, ← there] at here
    exact (List.getElem?_inj (List.getElem?_eq_some_iff.mp iter.cur).1 nodup).mp here
  · rintro rfl
    exact Option.some.inj (here.symm.trans there)

/-- The distance of two element pointers of one node. -/
theorem gap_slots (p j k : Nat) : Iter.gap T (p + j * T.size) (p + k * T.size) = (k : Int) - j := by
  have size : (T.size : Int) ≠ 0 := Int.natCast_ne_zero.mpr T.size_pos.ne'
  have same : ((p + k * T.size : Nat) : Int) - (p + j * T.size : Nat) = (k - j) * T.size := by
    push_cast
    ring
  rw [Iter.gap, same, Int.mul_ediv_cancel _ size]

/-- `operator-`. -/
theorem distance_eq (iter : IterAt T s ps m it) (iter' : IterAt T s ps m' it') :
    it.distance T it' = (m : Int) - m' := by
  obtain ⟨p, node, rfl⟩ := iter
  obtain ⟨p', node', rfl⟩ := iter'
  have start : slotIter T p (m % T.bufSize) (s + m / T.bufSize) =
    ⟨p + m % T.bufSize * T.size, p + 0 * T.size, p + T.bufSize * T.size, s + m / T.bufSize⟩ := by
    rw [Nat.zero_mul]
    rfl
  have first := gap_slots (T := T) p 0 (m % T.bufSize)
  have last := gap_slots (T := T) p' (m' % T.bufSize) T.bufSize
  rw [Iter.distance, start]
  simp only [slotIter_node, slotIter_cur, slotIter_last, ElemType.nodeSize, first, last]
  have whole := Nat.div_add_mod m T.bufSize
  have whole' := Nat.div_add_mod m' T.bufSize
  zify at whole whole'
  push_cast
  linear_combination whole - whole'

/-- `operator<`. -/
theorem less_iff (iter : IterAt T s ps m it) (iter' : IterAt T s ps m' it') :
    it.less it' = true ↔ m < m' := by
  obtain ⟨p, node, rfl⟩ := iter
  obtain ⟨p', node', rfl⟩ := iter'
  have whole := Nat.div_add_mod m T.bufSize
  have whole' := Nat.div_add_mod m' T.bufSize
  rw [Iter.less]
  split_ifs with equal
  · have block : m / T.bufSize = m' / T.bufSize := Nat.add_left_cancel equal
    rw [block, node'] at node
    cases node
    rw [decide_eq_true_iff, slotIter_cur, slotIter_cur, Nat.add_lt_add_iff_left,
      Nat.mul_lt_mul_right T.size_pos]
    rw [block] at whole
    omega
  · rw [decide_eq_true_iff, slotIter_node, slotIter_node, Nat.add_lt_add_iff_left]
    have other : m / T.bufSize ≠ m' / T.bufSize := fun block => equal (congrArg (s + ·) block)
    constructor
    · exact fun less => lt_of_not_ge fun le => absurd (Nat.div_le_div_right le) (not_le.mpr less)
    · exact fun less => lt_of_le_of_ne (Nat.div_le_div_right less.le) other

/-- The number of nodes that `operator+=` goes on or back. -/
theorem nodeOffset_eq {offset : Int} {c k : Nat} (total : offset = (k : Int) - c * T.bufSize)
    (outside : ¬(0 ≤ offset ∧ offset < T.bufSize)) :
    Iter.nodeOffset T offset = (k / T.bufSize : Nat) - (c : Int) := by
  have positive : (0 : Int) < T.bufSize := Int.natCast_pos.mpr T.bufSize_pos
  have floor : offset / T.bufSize = (k / T.bufSize : Nat) - (c : Int) := by
    rw [total, sub_eq_add_neg, ← neg_mul, Int.add_mul_ediv_right _ _ positive.ne']
    rfl
  rw [← floor, Iter.nodeOffset]
  split_ifs with forward
  · rfl
  · -- rounded towards minus infinity
    obtain ⟨j, equal⟩ := Int.eq_negSucc_of_lt_zero (a := offset) (by omega)
    rw [equal, Int.negSucc_ediv j positive, Int.neg_negSucc, Int.natCast_succ,
      add_sub_cancel_right, neg_add, ← sub_eq_add_neg]
    rfl

/-- Where `operator+=` stays within the node. -/
theorem offset_within {offset : Int} {c k : Nat} (total : offset = (k : Int) - c * T.bufSize)
    (inside : 0 ≤ offset ∧ offset < T.bufSize) :
    k / T.bufSize = c ∧ ((k % T.bufSize : Nat) : Int) = offset := by
  obtain ⟨j, rfl⟩ := Int.eq_ofNat_of_zero_le inside.1
  have less : j < T.bufSize := Int.ofNat_lt.mp inside.2
  have sum : k = j + T.bufSize * c := by
    zify
    linear_combination -total
  constructor
  · rw [sum, Nat.add_mul_div_left _ _ T.bufSize_pos, Nat.div_eq_of_lt less, Nat.zero_add]
  · rw [sum, Nat.add_mul_mod_self_left, Nat.mod_eq_of_lt less]

/-- `operator+=`. -/
theorem advance_eq {n : Int} {k : Nat} (held : Holds map s ps) (iter : IterAt T s ps m it)
    (target : (k : Int) = m + n) (inside : k < ps.length * T.bufSize) :
    ∃ it', it.advance T map n = .ok it' ∧ IterAt T s ps k it' := by
  obtain ⟨p, node, rfl⟩ := iter
  obtain ⟨p', node'⟩ := exists_node inside
  have first := gap_slots (T := T) p 0 (m % T.bufSize)
  rw [Nat.zero_mul, Nat.add_zero, Nat.cast_zero, sub_zero] at first
  have whole := Nat.div_add_mod m T.bufSize
  have whole' := Nat.div_add_mod k T.bufSize
  have total : n + (m % T.bufSize : Nat) = (k : Int) - (m / T.bufSize : Nat) * T.bufSize := by
    have cast : (T.bufSize : Int) * (m / T.bufSize : Nat) + (m % T.bufSize : Nat) = m := by
      exact_mod_cast whole
    linear_combination -target + cast
  rw [Iter.advance]
  simp only [slotIter_first, slotIter_cur, slotIter_node, first]
  by_cases near : 0 ≤ n + (m % T.bufSize : Nat) ∧ n + (m % T.bufSize : Nat) < T.bufSize
  · -- within the node
    rw [if_pos near]
    obtain ⟨block, rest⟩ := offset_within total near
    have cur : ((p + m % T.bufSize * T.size : Nat) : Int) + n * T.size =
        (p + k % T.bufSize * T.size : Nat) := by
      rw [Nat.cast_add, Nat.cast_add, Nat.cast_mul, Nat.cast_mul, rest]
      ring
    refine ⟨_, rfl, p, block.symm ▸ node, ?_⟩
    rw [cur, Int.toNat_natCast, block]
    rfl
  · rw [if_neg near]
    have shift := nodeOffset_eq total near
    have index : offsetBy (s + m / T.bufSize) (Iter.nodeOffset T (n + (m % T.bufSize : Nat))) =
        .ok (s + k / T.bufSize) := by
      have sum : ((s + m / T.bufSize : Nat) : Int) + Iter.nodeOffset T (n + (m % T.bufSize : Nat)) =
          (s + k / T.bufSize : Nat) := by
        rw [shift]
        push_cast
        ring
      rw [offsetBy, sum, if_pos (Int.natCast_nonneg _), Int.toNat_natCast]
    have cur : (p' : Int) + (n + (m % T.bufSize : Nat) -
        Iter.nodeOffset T (n + (m % T.bufSize : Nat)) * T.bufSize) * T.size =
        (p' + k % T.bufSize * T.size : Nat) := by
      have cast : (T.bufSize : Int) * (k / T.bufSize : Nat) + (k % T.bufSize : Nat) = k := by
        exact_mod_cast whole'
      rw [shift, total, Nat.cast_add, Nat.cast_mul]
      linear_combination -(T.size : Int) * cast
    rw [index, ok_bind, Iter.setNode_eq (held.get node'), ok_bind]
    refine ⟨_, rfl, p', node', ?_⟩
    simp only [cur, Int.toNat_natCast]
    rfl

/-- `operator++`, before the end of the last node. -/
theorem increment_eq (held : Holds map s ps) (iter : IterAt T s ps m it)
    (inside : m + 1 < ps.length * T.bufSize) :
    ∃ it', it.increment T map = .ok it' ∧ IterAt T s ps (m + 1) it' := by
  obtain ⟨p, node, rfl⟩ := iter
  obtain ⟨p', node'⟩ := exists_node inside
  have next : p + m % T.bufSize * T.size + T.size = p + (m % T.bufSize + 1) * T.size := by
    rw [Nat.succ_mul, Nat.add_assoc]
  have whole := Nat.div_add_mod m T.bufSize
  have less := Nat.mod_lt m T.bufSize_pos
  rw [Iter.increment]
  simp only [Iter.withCur_cur, Iter.withCur_last, Iter.withCur_node, slotIter_cur, slotIter_last,
    slotIter_node, next, ElemType.nodeSize, ElemType.slot_eq_iff]
  split_ifs with last
  · -- the first slot of the next node
    rcases (Nat.div_mod_unique (a := m + 1) (c := 0) (d := m / T.bufSize + 1)
      T.bufSize_pos).mpr ⟨by rw [Nat.mul_succ]; omega, T.bufSize_pos⟩ with ⟨block, rest⟩
    rw [block] at node'
    have entry := held.get node'
    rw [← Nat.add_assoc] at entry
    rw [Iter.setNode_eq entry, ok_bind]
    refine ⟨_, rfl, p', block.symm ▸ node', ?_⟩
    rw [block, rest, slotIter_zero]
    rfl
  · rcases (Nat.div_mod_unique (a := m + 1) (c := m % T.bufSize + 1) (d := m / T.bufSize)
      T.bufSize_pos).mpr ⟨by omega, by omega⟩ with ⟨block, rest⟩
    refine ⟨_, rfl, p, block.symm ▸ node, ?_⟩
    rw [block, rest]
    rfl

/-- `operator--`, behind the first slot. -/
theorem decrement_eq (held : Holds map s ps) (iter : IterAt T s ps (m + 1) it)
    (inside : m < ps.length * T.bufSize) :
    ∃ it', it.decrement T map = .ok it' ∧ IterAt T s ps m it' := by
  obtain ⟨p, node, rfl⟩ := iter
  obtain ⟨p', node'⟩ := exists_node inside
  have whole := Nat.div_add_mod (m + 1) T.bufSize
  have less := Nat.mod_lt (m + 1) T.bufSize_pos
  have first : p + (m + 1) % T.bufSize * T.size = p ↔ (m + 1) % T.bufSize = 0 := by
    rw [Nat.add_eq_left, Nat.mul_eq_zero, or_iff_left T.size_pos.ne']
  rw [Iter.decrement]
  simp only [slotIter_cur, slotIter_first, slotIter_node, first]
  split_ifs with start
  · -- the last slot of the node before
    rcases Nat.exists_eq_succ_of_ne_zero (n := (m + 1) / T.bufSize) (fun zero => by
      rw [zero, start] at whole
      omega) with ⟨c, before_last⟩
    rw [before_last, start, Nat.mul_succ] at whole
    rcases (Nat.div_mod_unique (a := m) (c := T.bufSize - 1) (d := c)
      T.bufSize_pos).mpr ⟨by omega, by omega⟩ with ⟨block, rest⟩
    rw [block] at node'
    have entry := held.get node'
    rw [before_last, ← Nat.succ_eq_add_one, Nat.add_succ, before, ok_bind, Iter.setNode_eq entry,
      ok_bind]
    refine ⟨_, rfl, p', block.symm ▸ node', ?_⟩
    rw [block, rest, Iter.withCur, ElemType.last_slot]
    rfl
  · rcases (Nat.div_mod_unique (a := m) (c := (m + 1) % T.bufSize - 1)
      (d := (m + 1) / T.bufSize) T.bufSize_pos).mpr ⟨by omega, by omega⟩ with ⟨block, rest⟩
    have cur : p + (m + 1) % T.bufSize * T.size - T.size =
        p + ((m + 1) % T.bufSize - 1) * T.size := by
      have := Nat.mul_le_mul_right T.size (Nat.pos_of_ne_zero start)
      rw [Nat.sub_mul]
      omega
    refine ⟨_, rfl, p, block.symm ▸ node, ?_⟩
    rw [block, rest, cur]
    rfl

end IterAt

/-! ## The iterators of a deque -/

variable {α : Type} {d : Deque α} {L : Layout} {xs : List (Nat × α)}

namespace Rep

/-- `begin()`. -/
theorem iterAt_start (rep : Rep T d L xs) :
    IterAt T d.start.node L.nodes L.skip d.start := by
  have front := rep.places.front
  rw [List.head?_eq_getElem?] at front
  refine ⟨L.front, ?_, ?_⟩
  · rwa [Nat.div_eq_of_lt rep.places.skip]
  · rw [Nat.div_eq_of_lt rep.places.skip, Nat.mod_eq_of_lt rep.places.skip]
    exact rep.start

/-- `end()`. -/
theorem iterAt_finish (rep : Rep T d L xs) :
    IterAt T d.start.node L.nodes (L.skip + xs.length) d.finish := by
  have length := rep.places.length
  rw [List.length_map, Nat.mul_comm, Nat.add_comm _ L.used] at length
  obtain ⟨block, rest⟩ := (Nat.div_mod_unique T.bufSize_pos).mpr ⟨length.symm, rep.places.used⟩
  refine ⟨L.back, ?_, ?_⟩
  · rw [block, List.getElem?_append_right le_rfl, Nat.sub_self]
    rfl
  · rw [block, rest]
    exact rep.finish

/-- The end is a slot of the last node. -/
theorem length_lt (rep : Rep T d L xs) :
    L.skip + xs.length < L.nodes.length * T.bufSize := by
  have length := rep.places.length
  have used := rep.places.used
  rw [List.length_map] at length
  rw [length, List.length_append, List.length_singleton, Nat.succ_mul]
  omega

/-- What iterators between `begin()` and `end()` point to. -/
theorem cur_eq (rep : Rep T d L xs) {k : Nat} (less : k < xs.length)
    (iter : IterAt T d.start.node L.nodes (L.skip + k) it) : it.cur = xs[k].1 := by
  have cur := iter.cur
  rw [rep.places.slots_split, List.append_assoc,
    List.getElem?_append_right (by simp), length_progression, Nat.add_sub_cancel_left,
    List.getElem?_append_left (by simpa), List.getElem?_map, List.getElem?_eq_getElem less] at cur
  exact (Option.some.inj cur).symm

/-- `front()`. -/
theorem front_eq {x : Nat × α} (rep : Rep T d L (x :: xs)) : d.front = x.1 :=
  rep.cur_eq (Nat.succ_pos _) rep.iterAt_start

/-- `back()`. -/
theorem back_eq {x : Nat × α} (rep : Rep T d L (xs ++ [x])) : d.back T = .ok x.1 := by
  have finish := rep.iterAt_finish
  have inside := rep.length_lt
  rw [List.length_append, List.length_singleton, ← Nat.add_assoc] at finish inside
  obtain ⟨it, back, last⟩ := finish.decrement_eq rep.map (by omega)
  have cur := rep.cur_eq (by simp) last
  rw [Deque.back, back, ok_bind, cur, List.getElem_append_right le_rfl]
  simp only [Nat.sub_self, List.getElem_singleton]
  rfl

/-- `operator[]`. -/
theorem index_eq (rep : Rep T d L xs) {k : Nat} (less : k < xs.length) :
    d.index T k = .ok xs[k].1 := by
  have inside := rep.length_lt
  rcases rep.iterAt_start.advance_eq rep.map (k := L.skip + k) (n := k) (by push_cast; rfl)
    (by omega) with ⟨it, index, there⟩
  rw [Deque.index, index, ok_bind, rep.cur_eq less there]
  rfl

/-- `size()`. -/
theorem size_eq (rep : Rep T d L xs) : d.size T = xs.length := by
  rw [Deque.size, rep.iterAt_finish.distance_eq rep.iterAt_start]
  push_cast
  ring

/-- `empty()`. -/
theorem empty_iff (rep : Rep T d L xs) : d.empty = true ↔ xs = [] := by
  rw [Deque.empty, rep.iterAt_finish.same_iff rep.places.nodup rep.iterAt_start,
    Nat.add_eq_left, List.length_eq_zero_iff]

/-- `at`. -/
theorem at?_eq (rep : Rep T d L xs) (k : Nat) :
    d.at? T k = .ok (xs[k]?.map Prod.fst) := by
  rw [Deque.at?, rep.size_eq]
  split_ifs with beyond
  · rw [List.getElem?_eq_none (Int.ofNat_le.mp beyond)]
    rfl
  · have less := Int.ofNat_lt.mp (Int.lt_of_not_ge beyond)
    rw [rep.index_eq less, List.getElem?_eq_getElem less]
    rfl

end Rep

end TorchTest.Deque
