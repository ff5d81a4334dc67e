import Mathlib.Data.List.Nodup
import TorchTest.Deque.Source

/-!
# Where the elements of a deque lie

A `Layout` names the nodes of a deque, and how many slots are left free before the first
element and used up to the last one. `Places` says at which addresses the elements are: the
slots before them and their own are the slots of the full nodes and the used ones of the
last node. What an operation does at either end is an equation between such lists.

`Holds` says that a map has the pointers to some nodes from an index on, and the loops of
`std::copy` and `std::copy_backward` move them.
-/

namespace TorchTest.Deque

/-! ## Element types -/

section

variable {T : ElemType}

theorem ElemType.bufSize_pos (T : ElemType) : 0 < T.bufSize := by
  unfold ElemType.bufSize
  split_ifs with small
  · exact Nat.div_pos small.le T.size_pos
  · exact Nat.one_pos

/-- Pointers to slots of one node are equal only for one slot. -/
theorem ElemType.slot_eq_iff {p j k : Nat} : p + j * T.size = p + k * T.size ↔ j = k := by
  rw [Nat.add_left_cancel_iff, Nat.mul_left_inj T.size_pos.ne']

/-- The slot before the end of a node. -/
theorem ElemType.last_slot (p : Nat) :
    p + T.nodeSize - T.size = p + (T.bufSize - 1) * T.size := by
  have := Nat.mul_le_mul_right T.size T.bufSize_pos
  rw [ElemType.nodeSize, Nat.sub_mul]
  omega

@[simp] theorem ElemType.length_slots (p : Nat) : (T.slots p).length = T.bufSize :=
  length_progression ..

theorem ElemType.mem_slots {p a : Nat} : a ∈ T.slots p ↔ ∃ k < T.bufSize, a = p + k * T.size :=
  mem_progression

/-- The slots of nodes that share no byte are different. -/
theorem ElemType.disjoint_slots {p q : Nat}
    (separate : Interval.Separate ⟨p, T.nodeSize⟩ ⟨q, T.nodeSize⟩) :
    (T.slots p).Disjoint (T.slots q) := by
  have inside : ∀ {p a : Nat}, a ∈ T.slots p → a ∈ (⟨p, T.nodeSize⟩ : Interval) := by
    intro p a member
    obtain ⟨k, less, rfl⟩ := ElemType.mem_slots.mp member
    exact ⟨Nat.le_add_right _ _,
      Nat.add_lt_add_left (Nat.mul_lt_mul_of_pos_right less T.size_pos) p⟩
  exact fun a left right => separate a (inside left) (inside right)

theorem ElemType.nodup_slots (p : Nat) : (T.slots p).Nodup := by
  rw [ElemType.slots, progression_eq_map_range]
  exact List.nodup_range.map fun j k same => ElemType.slot_eq_iff.mp same

end

/-! ## Layouts -/

/-- The nodes before the last one, the last and the first node, the slots of the first node
before the first element, and the slots of the last node before the end. -/
structure Layout where
  full : List Nat
  back : Nat
  front : Nat
  skip : Nat
  used : Nat

/-- The nodes, in order. -/
abbrev Layout.nodes (L : Layout) : List Nat := L.full ++ [L.back]

/-- The elements of a deque laid out as `L` are at the addresses `as`. -/
structure Places (T : ElemType) (L : Layout) (as : List Nat) : Prop where
  front : L.nodes.head? = some L.front
  skip : L.skip < T.bufSize
  used : L.used < T.bufSize
  slots : progression L.front T.size L.skip ++ as =
    L.full.flatMap T.slots ++ progression L.back T.size L.used
  nodup : (L.nodes.flatMap T.slots).Nodup

namespace Places

variable {T : ElemType} {L : Layout} {as : List Nat} {a : Nat}

theorem length (places : Places T L as) :
    L.skip + as.length = L.full.length * T.bufSize + L.used := by
  have lengths := congrArg List.length places.slots
  simpa [List.length_flatMap] using lengths

/-- The addresses of the elements are slots of the nodes, and not of what is free behind
them. -/
theorem slots_split (places : Places T L as) :
    L.nodes.flatMap T.slots = progression L.front T.size L.skip ++ as ++
      progression (L.back + L.used * T.size) T.size (T.bufSize - L.used) := by
  rw [List.flatMap_append, List.flatMap_singleton, places.slots, ElemType.slots,
    progression_split places.used.le, List.append_assoc]

/-- The slot of the end is no element's. -/
theorem finish_not_mem (places : Places T L as) : L.back + L.used * T.size ∉ as := by
  have nodup := places.nodup
  have free : T.bufSize - L.used = T.bufSize - L.used - 1 + 1 := by
    have := places.used
    omega
  rw [places.slots_split, free, progression_succ] at nodup
  have disjoint := (List.nodup_append.mp nodup).2.2
  intro member
  exact disjoint _ (List.mem_append_right _ member) _ List.mem_cons_self rfl

/-- The slot of the end is in a node. -/
theorem finish_mem (places : Places T L as) :
    L.back + L.used * T.size ∈ L.nodes.flatMap T.slots :=
  List.mem_flatMap.mpr ⟨L.back, List.mem_append_right _ (List.mem_singleton_self _),
    ElemType.mem_slots.mpr ⟨L.used, places.used, rfl⟩⟩

theorem nodup_places (places : Places T L as) : as.Nodup := by
  have nodup := places.nodup
  rw [places.slots_split] at nodup
  exact nodup.of_append_left.of_append_right

/-- An element is at a slot of a node. -/
theorem mem_nodes (places : Places T L as) (member : a ∈ as) :
    a ∈ L.nodes.flatMap T.slots := by
  rw [places.slots_split]
  exact List.mem_append_left _ (List.mem_append_right _ member)

/-! ### At the back -/

/-- One more element in the last node. -/
theorem push_back (places : Places T L as) (room : L.used + 1 < T.bufSize) :
    Places T { L with used := L.used + 1 } (as ++ [L.back + L.used * T.size]) where
  front := places.front
  skip := places.skip
  used := room
  slots := by
    rw [progression_concat, ← List.append_assoc, places.slots, List.append_assoc]
  nodup := places.nodup

/-- The last slot of the last node is taken, and a node added. -/
theorem push_back_node (places : Places T L as) (last : L.used + 1 = T.bufSize) {p : Nat}
    (fresh : ∀ q ∈ L.nodes, (T.slots q).Disjoint (T.slots p)) :
    Places T { L with full := L.nodes, back := p, used := 0 }
      (as ++ [L.back + L.used * T.size]) where
  front := by
    change (L.nodes ++ [p]).head? = _
    rw [List.head?_append, places.front]
    rfl
  skip := places.skip
  used := T.bufSize_pos
  slots := by
    rw [← List.append_assoc, places.slots, List.append_assoc, ← progression_concat, last,
      List.flatMap_append, List.flatMap_singleton, progression_zero, List.append_nil]
    rfl
  nodup := by
    change ((L.nodes ++ [p]).flatMap T.slots).Nodup
    rw [List.flatMap_append, List.flatMap_singleton]
    refine places.nodup.append (ElemType.nodup_slots p) fun a left right => ?_
    obtain ⟨q, member, inside⟩ := List.mem_flatMap.mp left
    exact fresh q member inside right

/-- The last element, in the last node. -/
theorem pop_back (places : Places T L (as ++ [a])) (some : L.used ≠ 0) :
    a = L.back + (L.used - 1) * T.size ∧ Places T { L with used := L.used - 1 } as := by
  obtain ⟨k, used⟩ := Nat.exists_eq_succ_of_ne_zero some
  have slots := places.slots
  rw [used, Nat.succ_eq_add_one, progression_concat, ← List.append_assoc, ← List.append_assoc]
    at slots
  obtain ⟨others, same⟩ := List.append_inj' slots rfl
  rw [used, Nat.succ_sub_one]
  refine ⟨List.cons.inj same |>.1, places.front, places.skip, ?_, others, places.nodup⟩
  have := places.used
  change k < _
  omega

/-- The last element, in the node before the last one. -/
theorem pop_back_node (places : Places T L (as ++ [a])) (none : L.used = 0) :
    ∃ full back, L.full = full ++ [back] ∧ a = back + (T.bufSize - 1) * T.size ∧
      Places T { L with full, back, used := T.bufSize - 1 } as := by
  have slots := places.slots
  rw [none, progression_zero, List.append_nil, ← List.append_assoc] at slots
  rcases List.eq_nil_or_concat L.full with empty | ⟨full, back, at_end⟩
  · rw [empty, List.flatMap_nil] at slots
    exact absurd slots (List.append_ne_nil_of_right_ne_nil _ (List.cons_ne_nil _ _))
  · rw [List.concat_eq_append] at at_end
    have whole : T.bufSize - 1 + 1 = T.bufSize := Nat.sub_add_cancel T.bufSize_pos
    have split := progression_concat back T.size (T.bufSize - 1)
    rw [whole] at split
    rw [at_end, List.flatMap_append, List.flatMap_singleton, ElemType.slots, split,
      ← List.append_assoc] at slots
    obtain ⟨others, same⟩ := List.append_inj' slots rfl
    have nodup := places.nodup
    have front := places.front
    unfold Layout.nodes at nodup front
    rw [at_end] at nodup front
    refine ⟨full, back, at_end, (List.cons.inj same).1, ?_, places.skip,
      Nat.sub_lt T.bufSize_pos Nat.one_pos, others, ?_⟩
    · rw [List.head?_append_of_ne_nil _ (List.append_ne_nil_of_right_ne_nil _
        (List.cons_ne_nil _ _))] at front
      exact front
    · rw [List.flatMap_append] at nodup
      exact nodup.of_append_left

/-! ### At the front -/

/-- One more element in the first node. -/
theorem push_front (places : Places T L as) (some : L.skip ≠ 0) :
    Places T { L with skip := L.skip - 1 } ((L.front + (L.skip - 1) * T.size) :: as) where
  front := places.front
  skip := (Nat.sub_le _ _).trans_lt places.skip
  used := places.used
  slots := by
    have split := progression_concat L.front T.size (L.skip - 1)
    rw [Nat.sub_add_cancel (Nat.pos_of_ne_zero some)] at split
    rw [← places.slots, split, List.append_assoc]
    rfl
  nodup := places.nodup

/-- A node is added in front, and its last slot taken. -/
theorem push_front_node (places : Places T L as) (none : L.skip = 0) {p : Nat}
    (fresh : ∀ q ∈ L.nodes, (T.slots q).Disjoint (T.slots p)) :
    Places T { L with full := p :: L.full, front := p, skip := T.bufSize - 1 }
      ((p + (T.bufSize - 1) * T.size) :: as) where
  front := rfl
  skip := Nat.sub_lt T.bufSize_pos Nat.one_pos
  used := places.used
  slots := by
    have split := progression_concat p T.size (T.bufSize - 1)
    rw [Nat.sub_add_cancel T.bufSize_pos] at split
    have slots := places.slots
    rw [none, progression_zero, List.nil_append] at slots
    rw [List.flatMap_cons, List.append_assoc, ← slots, ElemType.slots, split, List.append_assoc]
    rfl
  nodup := by
    change ((p :: L.nodes).flatMap T.slots).Nodup
    rw [List.flatMap_cons]
    refine (ElemType.nodup_slots p).append places.nodup fun a left right => ?_
    obtain ⟨q, member, inside⟩ := List.mem_flatMap.mp right
    exact fresh q member inside left

/-- The first element is in the first node. -/
theorem first (places : Places T L (a :: as)) : a = L.front + L.skip * T.size := by
  have front := places.front
  have slots := congrArg (List.take (L.skip + 1)) places.slots
  have length := places.length
  have left : (progression L.front T.size L.skip ++ a :: as).take (L.skip + 1) =
      progression L.front T.size L.skip ++ [a] := by
    rw [List.take_append, List.take_of_length_le (by simp), length_progression,
      Nat.add_sub_cancel_left]
    rfl
  have right : (L.full.flatMap T.slots ++ progression L.back T.size L.used).take (L.skip + 1) =
      progression L.front T.size (L.skip + 1) := by
    have skip := places.skip
    cases full : L.full with
    | nil =>
      unfold Layout.nodes at front
      rw [full] at front length
      rw [List.length_cons, List.length_nil] at length
      rw [← Option.some.inj front]
      exact take_progression (by omega)
    | cons p rest =>
      unfold Layout.nodes at front
      rw [full] at front
      rw [← Option.some.inj front, List.flatMap_cons, List.append_assoc,
        List.take_append_of_le_length (by rw [ElemType.length_slots]; omega)]
      exact take_progression skip
  rw [left, right, progression_concat] at slots
  exact List.cons.inj (List.append_cancel_left slots) |>.1

/-- The first element goes, and its node stays. -/
theorem pop_front (places : Places T L (a :: as)) (more : L.skip + 1 < T.bufSize) :
    Places T { L with skip := L.skip + 1 } as where
  front := places.front
  skip := more
  used := places.used
  slots := by
    rw [progression_concat, ← places.first, List.append_assoc]
    exact places.slots
  nodup := places.nodup

/-- The first element goes, and its node with it. -/
theorem pop_front_node (places : Places T L (a :: as)) (last : L.skip + 1 = T.bufSize) :
    ∃ full front, L.full = L.front :: full ∧
      Places T { L with full, front, skip := 0 } as := by
  have front := places.front
  have length := places.length
  cases at_front : L.full with
  | nil =>
    have used := places.used
    rw [at_front, List.length_cons, List.length_nil] at length
    omega
  | cons p full =>
    have nodup := places.nodup
    unfold Layout.nodes at front nodup
    rw [at_front] at front nodup
    have same : L.front = p := (Option.some.inj front).symm
    have some : (full ++ [L.back]).head? ≠ Option.none := by
      rw [ne_eq, List.head?_eq_none_iff]
      exact List.append_ne_nil_of_right_ne_nil _ (List.cons_ne_nil _ _)
    obtain ⟨next, head⟩ := Option.ne_none_iff_exists'.mp some
    have split : progression L.front T.size L.skip ++ ([L.front + L.skip * T.size] ++ as) =
        (p :: full).flatMap T.slots ++ progression L.back T.size L.used := by
      rw [← at_front, ← places.first]
      exact places.slots
    rw [← List.append_assoc, ← progression_concat, last, List.flatMap_cons, List.append_assoc,
      same] at split
    refine ⟨full, next, by rw [same], head, T.bufSize_pos, places.used, ?_, ?_⟩
    · exact List.append_cancel_left split
    · rw [List.cons_append, List.flatMap_cons] at nodup
      exact nodup.of_append_right

/-- The slot before the first element is no element's. -/
theorem before_not_mem (places : Places T L as) (some : L.skip ≠ 0) :
    L.front + (L.skip - 1) * T.size ∉ as := by
  have nodup := (places.push_front some).nodup_places
  exact (List.nodup_cons.mp nodup).1

end Places

end TorchTest.Deque
