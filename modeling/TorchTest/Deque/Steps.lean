import Mathlib.Data.List.Perm.Basic
import TorchTest.Deque.Layout
import TorchTest.Deque.Map

/-!
# What the operations of a deque do

`Rep T d L xs`: the deque `d`, laid out as `L`, has the elements `xs`, each with its address.
There is a lemma for each operation, from its precondition to what it answers and what the
deque represents after it. `Moved` is what `_M_reallocate_map` does to the place of the nodes
in the map.
-/

namespace TorchTest.Deque

/-- The iterator at slot `k` of the node `p`. -/
@[simps] def slotIter (T : ElemType) (p k node : Nat) : Iter :=
  ⟨p + k * T.size, p, p + T.nodeSize, node⟩

theorem slotIter_zero (T : ElemType) (p node : Nat) :
    slotIter T p 0 node = ⟨p, p, p + T.nodeSize, node⟩ := by
  rw [slotIter, Nat.zero_mul, Nat.add_zero]

/-- The iterator, its node found at another index. -/
def Iter.atNode (it : Iter) (i : Nat) : Iter := { it with node := i }

/-- The deque has the elements `xs`, laid out as `L`. -/
structure Rep {α : Type} (T : ElemType) (d : Deque α) (L : Layout) (xs : List (Nat × α)) :
    Prop where
  places : Places T L (xs.map Prod.fst)
  map : Holds d.map d.start.node L.nodes
  mapSize : d.mapSize = d.map.length
  start : d.start = slotIter T L.front L.skip d.start.node
  finish : d.finish = slotIter T L.back L.used (d.start.node + L.full.length)
  nodes : d.nodes.Perm L.nodes
  objs : ∀ a v, d.objs a = some v ↔ (a, v) ∈ xs

variable {T : ElemType} {α : Type} {d d' : Deque α} {L : Layout} {xs : List (Nat × α)}
  {a k p i : Nat} {v : α} {map : List (Option Nat)} {it : Iter}

/-! ## Iterators and objects -/

theorem Iter.setNode_eq (at_i : map[i]? = some (some p)) :
    it.setNode T map i = .ok { it with first := p, last := p + T.nodeSize, node := i } := by
  rw [Iter.setNode, entry_eq at_i]
  rfl

theorem destroy_eq (here : d.objs a = some v) :
    d.destroy a = .ok (d.withObj a none) := by
  rw [destroy, here]

theorem construct_eq (inside : a ∈ d.nodes.flatMap T.slots) (free : d.objs a = none)
    (copied : Bool) :
    d.construct T a v copied = .ok (if copied then some (d.withObj a (some v)) else none) :=
  if_pos ⟨inside, free⟩

theorem deallocateNode_eq (member : p ∈ d.nodes) (empty : ∀ a ∈ T.slots p, d.objs a = none) :
    d.deallocateNode T p = .ok (d.withoutNode p) :=
  if_pos ⟨member, empty⟩

/-- A new object. -/
theorem objs_update_some (objs : ∀ a v, d.objs a = some v ↔ (a, v) ∈ xs)
    (fresh : a ∉ xs.map Prod.fst) (b : Nat) (w : α) :
    Function.update d.objs a (some v) b = some w ↔ (b, w) = (a, v) ∨ (b, w) ∈ xs := by
  rcases eq_or_ne b a with rfl | other
  · rw [Function.update_self, Option.some.injEq, Prod.mk.injEq, eq_comm]
    have absent : (b, w) ∉ xs := fun member => fresh (List.mem_map_of_mem member)
    simp [absent]
  · rw [Function.update_of_ne other, objs, Prod.mk.injEq]
    simp [other]

/-- An object less. -/
theorem objs_update_none (objs : ∀ b w, d.objs b = some w ↔ (b, w) = (a, v) ∨ (b, w) ∈ xs)
    (gone : a ∉ xs.map Prod.fst) (b : Nat) (w : α) :
    Function.update d.objs a none b = some w ↔ (b, w) ∈ xs := by
  rcases eq_or_ne b a with rfl | other
  · rw [Function.update_self]
    have absent : (b, w) ∉ xs := fun member => gone (List.mem_map_of_mem member)
    simp [absent]
  · rw [Function.update_of_ne other, objs, Prod.mk.injEq]
    simp [other]

namespace Rep

theorem start_cur (rep : Rep T d L xs) : d.start.cur = L.front + L.skip * T.size := by
  rw [rep.start]
  rfl

theorem finish_cur (rep : Rep T d L xs) : d.finish.cur = L.back + L.used * T.size := by
  rw [rep.finish]
  rfl

theorem finish_node (rep : Rep T d L xs) : d.finish.node = d.start.node + L.full.length := by
  rw [rep.finish]
  rfl

theorem front_entry (rep : Rep T d L xs) : d.map[d.start.node]? = some (some L.front) :=
  rep.map.head rep.places.front

/-- The next slot is the last one of its node. -/
theorem finish_at_end (rep : Rep T d L xs) :
    d.finish.cur = d.finish.last - T.size ↔ L.used + 1 = T.bufSize := by
  have := T.bufSize_pos
  rw [rep.finish]
  simp only [slotIter]
  rw [ElemType.last_slot, ElemType.slot_eq_iff]
  omega

theorem finish_at_start (rep : Rep T d L xs) : d.finish.cur = d.finish.first ↔ L.used = 0 := by
  rw [rep.finish]
  simp [slotIter, T.size_pos.ne']

theorem start_at_start (rep : Rep T d L xs) : d.start.cur = d.start.first ↔ L.skip = 0 := by
  rw [rep.start]
  simp [slotIter, T.size_pos.ne']

theorem start_at_end (rep : Rep T d L xs) :
    d.start.cur = d.start.last - T.size ↔ L.skip + 1 = T.bufSize := by
  have := T.bufSize_pos
  rw [rep.start]
  simp only [slotIter]
  rw [ElemType.last_slot, ElemType.slot_eq_iff]
  omega

/-- A slot that is no element's has no object. -/
theorem objs_eq_none (rep : Rep T d L xs) (free : a ∉ xs.map Prod.fst) : d.objs a = none := by
  rcases none_or_some : d.objs a with _ | v
  · rfl
  · exact absurd (List.mem_map_of_mem ((rep.objs a v).mp none_or_some)) free

theorem mem_slots (rep : Rep T d L xs) :
    a ∈ d.nodes.flatMap T.slots ↔ a ∈ L.nodes.flatMap T.slots :=
  (rep.nodes.flatMap_right T.slots).mem_iff

end Rep

/-! ## Room in the map -/

/-- The nodes of a deque. -/
def numNodes (d : Deque α) : Nat := d.finish.node - d.start.node + 1

/-- The deque with its nodes in `map`, from the index `r` on. -/
def moved (d : Deque α) (map : List (Option Nat)) (r : Nat) : Deque α :=
  { d with
    map, mapSize := map.length
    start := d.start.atNode r
    finish := d.finish.atNode (r + (d.finish.node - d.start.node)) }

/-- `_M_reallocate_map` put the nodes to the middle of the map, with room for `n` more, and
took a larger map if the old one was more than half full. -/
structure Moved (d d' : Deque α) (n : Nat) (addAtFront : Bool) : Prop where
  fits : d.numNodes + n ≤ d'.mapSize
  start : d'.start.node = (d'.mapSize - (d.numNodes + n)) / 2 + if addAtFront then n else 0
  finish : d'.finish.node = d'.start.node + (d.finish.node - d.start.node)
  size : 2 * (d.numNodes + n) < d.mapSize ∧ d'.mapSize = d.mapSize ∨
    d.mapSize ≤ 2 * (d.numNodes + n) ∧ d'.mapSize = d.mapSize + max d.mapSize n + 2

/-- There are as many nodes as before. -/
theorem Moved.finish_succ {d d' : Deque α} {n : Nat} {addAtFront : Bool}
    (moved : Moved d d' n addAtFront) : d'.finish.node + 1 = d'.start.node + d.numNodes := by
  rw [moved.finish, numNodes, Nat.add_assoc]

/-- The map is left alone, and the nodes are fewer or the same. -/
structure Shrinks (d d' : Deque α) : Prop where
  size : d'.mapSize = d.mapSize
  start : d.start.node ≤ d'.start.node
  finish : d'.finish.node ≤ d.finish.node

theorem Shrinks.refl (d : Deque α) : Shrinks d d := ⟨rfl, le_rfl, le_rfl⟩

/-- `_M_reallocate_map` finds room in the map, or is granted a larger one. -/
def CanMove (d : Deque α) (n : Nat) (granted : Bool) : Prop :=
  2 * (d.numNodes + n) < d.mapSize ∨ granted = true

/-- `push_back` moves the nodes in the map. -/
def MovesBack (T : ElemType) (d : Deque α) (env : Env) : Prop :=
  d.finish.cur = d.finish.last - T.size ∧ d.mapSize - d.finish.node < 2 ∧ d.CanMove 1 env.map

/-- `push_front` moves the nodes in the map. -/
def MovesFront (d : Deque α) (env : Env) : Prop :=
  d.start.cur = d.start.first ∧ d.start.node < 1 ∧ d.CanMove 1 env.map

instance (d : Deque α) (n : Nat) (granted : Bool) : Decidable (d.CanMove n granted) :=
  inferInstanceAs (Decidable (_ ∨ _))

instance (T : ElemType) (d : Deque α) (env : Env) : Decidable (d.MovesBack T env) :=
  inferInstanceAs (Decidable (_ ∧ _))

instance (d : Deque α) (env : Env) : Decidable (d.MovesFront env) :=
  inferInstanceAs (Decidable (_ ∧ _))

namespace Rep

theorem length_nodes (rep : Rep T d L xs) : L.nodes.length = d.numNodes := by
  rw [numNodes, rep.finish_node, List.length_append, List.length_singleton,
    Nat.add_sub_cancel_left]

theorem numNodes_le (rep : Rep T d L xs) : d.start.node + d.numNodes ≤ d.mapSize := by
  have bound := rep.map.bound
  rw [numNodes, rep.finish_node, rep.mapSize]
  omega

theorem finish_succ (rep : Rep T d L xs) : d.finish.node + 1 = d.start.node + d.numNodes := by
  rw [numNodes, rep.finish_node, Nat.add_sub_cancel_left, Nat.add_assoc]

/-- The nodes may be anywhere in the map, and in any map. -/
theorem moved (rep : Rep T d L xs) (held : Holds map i L.nodes) : Rep T (d.moved map i) L xs where
  places := rep.places
  map := held
  mapSize := rfl
  start := congrArg (Iter.atNode · i) rep.start
  finish := by
    have last := rep.finish_node
    change d.finish.atNode (i + (d.finish.node - d.start.node)) = _
    rw [last, Nat.add_sub_cancel_left, rep.finish]
    rfl
  nodes := rep.nodes
  objs := rep.objs

theorem setNodes (rep : Rep T d L xs) (held : Holds map i L.nodes) :
    { d with map, mapSize := map.length }.setNodes T i d.numNodes = .ok (d.moved map i) := by
  have last : i + d.numNodes - 1 = i + (d.finish.node - d.start.node) := rfl
  have at_end : map[i + (d.finish.node - d.start.node)]? = some (some L.back) := by
    rw [rep.finish_node, Nat.add_sub_cancel_left]
    exact held.last
  have start : { d.start with first := L.front, last := L.front + T.nodeSize, node := i } =
      d.start.atNode i := by
    rw [rep.start]
    rfl
  have finish : { d.finish with
      first := L.back, last := L.back + T.nodeSize, node := i + (d.finish.node - d.start.node) } =
      d.finish.atNode (i + (d.finish.node - d.start.node)) := by
    rw [rep.finish]
    rfl
  rw [Deque.setNodes, Iter.setNode_eq (held.head rep.places.front), ok_bind, last,
    Iter.setNode_eq at_end, ok_bind, start, finish]
  rfl

/-- `std::copy` or `std::copy_backward`, as the nodes move. -/
theorem recentre (rep : Rep T d L xs) (fits : i + d.numNodes ≤ d.mapSize) :
    ∃ map, (if i < d.start.node then copy d.numNodes d.map d.start.node i
        else copyBackward d.numNodes d.map (d.finish.node + 1) (i + d.numNodes)) = .ok map ∧
      map.length = d.mapSize ∧ Holds map i L.nodes := by
  rw [rep.finish_succ, ← rep.length_nodes]
  rw [← rep.length_nodes, rep.mapSize] at fits
  rw [rep.mapSize]
  split_ifs with forward
  · obtain ⟨map, copied, length, held, _⟩ := rep.map.copy fits forward.le
    exact ⟨map, copied, length, held⟩
  · obtain ⟨map, copied, length, held, _⟩ := rep.map.copyBackward fits (Nat.le_of_not_lt forward)
    exact ⟨map, copied, length, held⟩

/-- The map may be rearranged or replaced; the elements stay where they are. -/
theorem reallocateMap (rep : Rep T d L xs) (n : Nat) (addAtFront granted : Bool) :
    (∃ d', d.reallocateMap T n addAtFront granted = .ok (some d') ∧ Rep T d' L xs ∧
      d.CanMove n granted ∧ Moved d d' n addAtFront) ∨
    ¬d.CanMove n granted ∧ d.reallocateMap T n addAtFront granted = .ok none := by
  have bound := rep.numNodes_le
  have shift : (if addAtFront then n else 0) ≤ n := by split_ifs <;> omega
  by_cases half : 2 * (d.numNodes + n) < d.mapSize
  · -- the nodes move within the map
    rcases rep.recentre (i := (d.mapSize - (d.numNodes + n)) / 2 + if addAtFront then n else 0)
      (by omega) with ⟨map, copied, length, held⟩
    refine .inl ⟨d.moved map _, ?_, rep.moved held, .inl half,
      ⟨?_, ?_, rfl, .inl ⟨half, length⟩⟩⟩
    · have set : (d.withMap map).setNodes T _ d.numNodes = _ := length ▸ rep.setNodes held
      rw [Deque.reallocateMap, ← numNodes]
      simp only [if_pos half, copied, ok_bind, set]
      rfl
    · change _ ≤ map.length
      omega
    · change _ = (map.length - _) / 2 + _
      rw [length]
      rfl
  · by_cases grants : granted
    · -- they are copied to a larger map
      rcases rep.map.copyTo (List.replicate (d.mapSize + max d.mapSize n + 2) none)
        (r := (d.mapSize + max d.mapSize n + 2 - (d.numNodes + n)) / 2 +
          if addAtFront then n else 0)
        (by rw [rep.length_nodes, List.length_replicate]; omega) with ⟨map, copied, length, held, _⟩
      rw [List.length_replicate] at length
      rw [rep.length_nodes] at copied
      refine .inl ⟨d.moved map _, ?_, rep.moved held, .inr grants,
        ⟨?_, ?_, rfl, .inr ⟨?_, length⟩⟩⟩
      · have set := rep.setNodes held
        rw [length] at set
        have given : deallocateMap d.map d.mapSize = .ok () := if_pos rep.mapSize
        rw [Deque.reallocateMap, ← numNodes]
        simp only [if_neg half, if_pos grants, copied, given, ok_bind, set]
        rfl
      · change _ ≤ map.length
        omega
      · change _ = (map.length - _) / 2 + _
        rw [length]
        rfl
      · omega
    · refine .inr ⟨not_or.mpr ⟨half, grants⟩, ?_⟩
      rw [Deque.reallocateMap, ← numNodes]
      simp only [if_neg half, if_neg grants]

/-- After `_M_reserve_map_at_back` there is room behind the nodes. -/
theorem reserveMapAtBack (rep : Rep T d L xs) (n : Nat) (granted : Bool) :
    (∃ d', d.reserveMapAtBack T n granted = .ok (some d') ∧ Rep T d' L xs ∧
      (n < d.mapSize - d.finish.node ∧ d' = d ∨
        d.mapSize - d.finish.node < n + 1 ∧ d.CanMove n granted ∧ Moved d d' n false) ∧
      d'.finish.node + n < d'.mapSize) ∨
    ¬d.CanMove n granted ∧ d.reserveMapAtBack T n granted = .ok none := by
  rw [Deque.reserveMapAtBack]
  split_ifs with short
  · rcases rep.reallocateMap n false granted with ⟨d', done, rep', can, moved⟩ | refused
    · refine .inl ⟨d', done, rep', .inr ⟨short, can, moved⟩, ?_⟩
      have := moved.fits
      have := moved.start
      have := moved.finish
      simp only [Bool.false_eq_true, if_false, numNodes] at *
      omega
    · exact .inr refused
  · exact .inl ⟨d, rfl, rep, .inl ⟨by omega, rfl⟩, by omega⟩

/-- After `_M_reserve_map_at_front` there is room before the nodes. -/
theorem reserveMapAtFront (rep : Rep T d L xs) (n : Nat) (granted : Bool) :
    (∃ d', d.reserveMapAtFront T n granted = .ok (some d') ∧ Rep T d' L xs ∧
      (n ≤ d.start.node ∧ d' = d ∨
        d.start.node < n ∧ d.CanMove n granted ∧ Moved d d' n true) ∧ n ≤ d'.start.node) ∨
    ¬d.CanMove n granted ∧ d.reserveMapAtFront T n granted = .ok none := by
  rw [Deque.reserveMapAtFront]
  split_ifs with short
  · rcases rep.reallocateMap n true granted with ⟨d', done, rep', can, moved⟩ | refused
    · refine .inl ⟨d', done, rep', .inr ⟨short, can, moved⟩, ?_⟩
      have := moved.start
      simp only [if_true] at this
      omega
    · exact .inr refused
  · exact .inl ⟨d, rfl, rep, .inl ⟨Nat.le_of_not_lt short, rfl⟩, Nat.le_of_not_lt short⟩

end Rep

/-! ## Elements that are added -/

/-- What the system answers to a call: a new node shares no byte with the others. -/
def NodeFresh (T : ElemType) (d : Deque α) (node : Option Nat) : Prop :=
  ∀ p ∈ node, ∀ q ∈ d.nodes, Interval.Apart ⟨q, T.nodeSize⟩ ⟨p, T.nodeSize⟩

instance (T : ElemType) (d : Deque α) (node : Option Nat) : Decidable (NodeFresh T d node) :=
  inferInstanceAs (Decidable (∀ p ∈ node, ∀ q ∈ d.nodes, Interval.Apart _ _))

/-- The size of the map, and which part of it is used. -/
def place (d : Deque α) : Nat × Nat × Nat := (d.mapSize, d.start.node, d.finish.node)

/-- How a call ends that adds the element `v`: `added` are the elements with it, at an
address that no element has. -/
def Added (T : ElemType) (d' : Deque α) (o : Outcome) (env : Env) (xs : List (Nat × α))
    (added : Nat → List (Nat × α)) : Prop :=
  (o = .done ∧ env.copy = true ∧ ∃ a L, a ∉ xs.map Prod.fst ∧ Rep T d' L (added a)) ∨
    (∃ L, Rep T d' L xs) ∧
      (o = .badAlloc ∧ (env.map = false ∨ env.node = none) ∨ o = .threw ∧ env.copy = false)

namespace Rep

theorem nodeFresh (rep : Rep T d L xs) (fresh : NodeFresh T d (some p)) :
    ∀ q ∈ L.nodes, (T.slots q).Disjoint (T.slots p) :=
  fun q member =>
    ElemType.disjoint_slots (fresh p rfl q (rep.nodes.mem_iff.mpr member)).separate

/-- The answer fits any deque with these nodes. -/
theorem fresh_of_same (rep : Rep T d L xs) (rep' : Rep T d' L xs) {node : Option Nat}
    (fresh : NodeFresh T d node) : NodeFresh T d' node :=
  fun p answer q member =>
    fresh p answer q (rep.nodes.mem_iff.mpr (rep'.nodes.mem_iff.mp member))

/-- A map that holds the same nodes. -/
theorem withMap (rep : Rep T d L xs) (held : Holds map d.start.node L.nodes)
    (length : map.length = d.map.length) : Rep T (d.withMap map) L xs where
  places := rep.places
  map := held
  mapSize := rep.mapSize.trans length.symm
  start := rep.start
  finish := rep.finish
  nodes := rep.nodes
  objs := rep.objs

theorem finish_fresh (rep : Rep T d L xs) : d.finish.cur ∉ xs.map Prod.fst :=
  rep.finish_cur ▸ rep.places.finish_not_mem

theorem construct_finish (rep : Rep T d L xs) (v : α) (copied : Bool) :
    d.construct T d.finish.cur v copied =
      .ok (if copied then some (d.withObj d.finish.cur (some v)) else none) :=
  construct_eq (rep.mem_slots.mpr (rep.finish_cur ▸ rep.places.finish_mem))
    (rep.objs_eq_none rep.finish_fresh) copied

/-- An element in the last node, which has room for more. -/
theorem pushed_back (rep : Rep T d L xs) (room : L.used + 1 < T.bufSize) (v : α) :
    Rep T ((d.withObj d.finish.cur (some v)).withFinish
      (d.finish.withCur (d.finish.cur + T.size))) { L with used := L.used + 1 }
      (xs ++ [(d.finish.cur, v)]) where
  places := by
    rw [List.map_append, rep.finish_cur]
    exact rep.places.push_back room
  map := rep.map
  mapSize := rep.mapSize
  start := rep.start
  finish := by
    have next : L.back + L.used * T.size + T.size = L.back + (L.used + 1) * T.size := by
      rw [Nat.succ_mul, Nat.add_assoc]
    rw [withFinish_finish, rep.finish]
    simp only [slotIter, Iter.withCur, next]
    rfl
  nodes := rep.nodes
  objs b w := by
    rw [withFinish_objs, withObj_objs, objs_update_some rep.objs rep.finish_fresh,
      List.mem_append, List.mem_singleton, or_comm]

/-- An element in the last slot of the last node, and a new node behind it. -/
theorem pushed_back_node (rep : Rep T d L xs) (last : L.used + 1 = T.bufSize)
    (room : d.finish.node + 1 < d.mapSize) (fresh : NodeFresh T d (some p)) (v : α) :
    Rep T ((((d.allocateNode p).withMap (d.map.set (d.finish.node + 1) (some p))).withObj
      d.finish.cur (some v)).withFinish (slotIter T p 0 (d.finish.node + 1)))
      { L with full := L.nodes, back := p, used := 0 } (xs ++ [(d.finish.cur, v)]) where
  places := by
    rw [List.map_append, rep.finish_cur]
    exact rep.places.push_back_node last (rep.nodeFresh fresh)
  map := by
    have at_end : d.finish.node + 1 = d.start.node + L.nodes.length := by
      rw [rep.finish_node, List.length_append, List.length_singleton, Nat.add_assoc]
    rw [rep.mapSize, at_end] at room
    rw [at_end]
    exact rep.map.push p room
  mapSize := rep.mapSize.trans List.length_set.symm
  start := rep.start
  finish := by
    rw [rep.finish_node, List.length_append, List.length_singleton, Nat.add_assoc]
    rfl
  nodes := (rep.nodes.cons p).trans (List.perm_append_singleton p L.nodes).symm
  objs b w := by
    rw [withFinish_objs, withObj_objs]
    exact (objs_update_some rep.objs rep.finish_fresh b w).trans
      (by rw [List.mem_append, List.mem_singleton, or_comm])

/-- A new node is given back while nothing is in it. -/
theorem deallocate_fresh (rep : Rep T d L xs) (fresh : NodeFresh T d (some p))
    (map : List (Option Nat)) :
    ((d.allocateNode p).withMap map).deallocateNode T p = .ok (d.withMap map) := by
  have empty : ∀ a ∈ T.slots p, d.objs a = none := by
    intro a inside
    refine rep.objs_eq_none fun member => ?_
    obtain ⟨q, node, slot⟩ := List.mem_flatMap.mp (rep.places.mem_nodes member)
    exact rep.nodeFresh fresh q node slot inside
  rw [deallocateNode_eq (d := (d.allocateNode p).withMap map) List.mem_cons_self empty]
  simp only [withoutNode, allocateNode, Deque.withMap, List.erase_cons_head]

theorem pushBackNode (rep : Rep T d L xs) (last : L.used + 1 = T.bufSize)
    (room : d.finish.node + 1 < d.mapSize) (fresh : NodeFresh T d (some p)) (v : α)
    (env : Env) :
    ∃ d' o, d.pushBackNode T p v env.copy = .ok (d', o) ∧
      Added T d' o env xs (fun a => xs ++ [(a, v)]) ∧
      (d'.place = d.place ∨ o = .done ∧ d'.place = (d.mapSize, d.start.node, d.finish.node + 1)) := by
  have inside : d.finish.node + 1 < d.map.length := room.trans_le rep.mapSize.le
  have held : Holds (d.map.set (d.finish.node + 1) (some p)) d.start.node L.nodes := by
    refine rep.map.set _ (.inr ?_)
    rw [rep.finish_node, List.length_append, List.length_singleton, Nat.add_assoc]
  have new : (d.map.set (d.finish.node + 1) (some p))[d.finish.node + 1]? = some (some p) :=
    List.getElem?_set_self inside
  have slot : d.finish.cur ∈ (d.allocateNode p).nodes.flatMap T.slots := by
    rw [allocateNode_nodes, List.flatMap_cons, List.mem_append, rep.mem_slots, rep.finish_cur]
    exact .inr rep.places.finish_mem
  have constructs := construct_eq (d := (d.allocateNode p).withMap
    (d.map.set (d.finish.node + 1) (some p))) (v := v) slot (rep.objs_eq_none rep.finish_fresh)
    env.copy
  rw [Deque.pushBackNode, setEntry_eq p inside, ok_bind]
  simp only [withMap_finish, allocateNode_finish, constructs, ok_bind]
  cases copied : env.copy with
  | true =>
    simp only [if_true, withObj_finish, withObj_map, withMap_finish, withMap_map,
      allocateNode_finish, Iter.setNode_eq new, ok_bind]
    have added := rep.pushed_back_node last room fresh v
    rw [slotIter_zero] at added
    exact ⟨_, _, rfl, .inl ⟨rfl, copied, d.finish.cur, _, rep.finish_fresh, added⟩,
      .inr ⟨rfl, rfl⟩⟩
  | false =>
    simp only [Bool.false_eq_true, if_false, withMap_map, entry_eq new, ok_bind,
      rep.deallocate_fresh fresh]
    exact ⟨_, _, rfl, .inr ⟨⟨L, rep.withMap held List.length_set⟩, .inr ⟨rfl, copied⟩⟩, .inl rfl⟩

/-- `push_back`. -/
theorem pushBack (rep : Rep T d L xs) (v : α) {env : Env} (fresh : NodeFresh T d env.node) :
    ∃ d₁ d' o, d.pushBack T v env = .ok (d', o) ∧
      Added T d' o env xs (fun a => xs ++ [(a, v)]) ∧
      (¬d.MovesBack T env ∧ d₁ = d ∨ d.MovesBack T env ∧ Moved d d₁ 1 false) ∧
      (d'.place = d₁.place ∨
        o = .done ∧ d'.place = (d₁.mapSize, d₁.start.node, d₁.finish.node + 1)) := by
  rw [Deque.pushBack]
  split_ifs with more
  · -- not the last slot of the node
    have room : L.used + 1 < T.bufSize := by
      have := rep.finish_at_end.not.mp more
      have := rep.places.used
      omega
    have stays : ¬d.MovesBack T env := fun moves => more moves.1
    rw [rep.construct_finish, ok_bind]
    cases copied : env.copy with
    | true =>
      exact ⟨d, _, _, rfl, .inl ⟨rfl, copied, _, _, rep.finish_fresh, rep.pushed_back room v⟩,
        .inl ⟨stays, rfl⟩, .inl rfl⟩
    | false =>
      exact ⟨d, _, _, rfl, .inr ⟨⟨L, rep⟩, .inr ⟨rfl, copied⟩⟩, .inl ⟨stays, rfl⟩, .inl rfl⟩
  · have at_end := not_not.mp more
    have last := rep.finish_at_end.mp at_end
    rw [Deque.pushBackAux]
    rcases rep.reserveMapAtBack 1 env.map with ⟨d₁, done, rep₁, place, room⟩ | ⟨refused, none⟩
    · have place : ¬d.MovesBack T env ∧ d₁ = d ∨ d.MovesBack T env ∧ Moved d d₁ 1 false := by
        rcases place with ⟨enough, same⟩ | ⟨short, can, moved⟩
        · exact .inl ⟨fun moves => absurd moves.2.1 (by omega), same⟩
        · exact .inr ⟨⟨at_end, short, can⟩, moved⟩
      rw [done, ok_bind]
      cases node : env.node with
      | none => exact ⟨d₁, _, _, rfl, .inr ⟨⟨L, rep₁⟩, .inl ⟨rfl, .inr node⟩⟩, place, .inl rfl⟩
      | some p =>
        rw [node] at fresh
        rcases rep₁.pushBackNode last room (rep.fresh_of_same rep₁ fresh) v env with
          ⟨d', o, added, result, places⟩
        exact ⟨d₁, d', o, added, result, place, places⟩
    · rw [none, ok_bind]
      have map := Bool.eq_false_iff.mpr (not_or.mp refused).2
      exact ⟨d, _, _, rfl, .inr ⟨⟨L, rep⟩, .inl ⟨rfl, .inl map⟩⟩,
        .inl ⟨fun moves => refused moves.2.2, rfl⟩, .inl rfl⟩

/-! ### In front -/

/-- The slot before the first element, in its node. -/
theorem before_start (rep : Rep T d L xs) (some : L.skip ≠ 0) :
    d.start.cur - T.size = L.front + (L.skip - 1) * T.size := by
  have := Nat.mul_le_mul_right T.size (Nat.pos_of_ne_zero some)
  rw [rep.start_cur, Nat.sub_mul]
  omega

/-- An element in the first node. -/
theorem pushed_front (rep : Rep T d L xs) (free : L.skip ≠ 0) (v : α) :
    Rep T ((d.withObj (d.start.cur - T.size) (some v)).withStart
      (d.start.withCur (d.start.cur - T.size))) { L with skip := L.skip - 1 }
      ((d.start.cur - T.size, v) :: xs) where
  places := by
    rw [List.map_cons, rep.before_start free]
    exact rep.places.push_front free
  map := rep.map
  mapSize := rep.mapSize
  start := by
    rw [withStart_start, rep.before_start free, rep.start]
    rfl
  finish := rep.finish
  nodes := rep.nodes
  objs b w := by
    have fresh : d.start.cur - T.size ∉ xs.map Prod.fst :=
      rep.before_start free ▸ rep.places.before_not_mem free
    rw [withStart_objs, withObj_objs, objs_update_some rep.objs fresh, List.mem_cons]

/-- An element in the last slot of a new first node. -/
theorem pushed_front_node (rep : Rep T d L xs) (first : L.skip = 0) (node : d.start.node = i + 1)
    (fresh : NodeFresh T d (some p)) (v : α) :
    Rep T ((((d.allocateNode p).withMap (d.map.set i (some p))).withStart
      (slotIter T p (T.bufSize - 1) i)).withObj (p + (T.bufSize - 1) * T.size) (some v))
      { L with full := p :: L.full, front := p, skip := T.bufSize - 1 }
      ((p + (T.bufSize - 1) * T.size, v) :: xs) where
  places := rep.places.push_front_node first (rep.nodeFresh fresh)
  map := by
    have held := rep.map
    have bound := rep.map.bound
    rw [node] at held bound
    exact held.cons p (by omega)
  mapSize := rep.mapSize.trans List.length_set.symm
  start := rfl
  finish := by
    rw [withObj_finish, withStart_finish, withMap_finish, allocateNode_finish, rep.finish, node,
      List.length_cons]
    simp only [slotIter, withObj_start, withStart_start, Nat.add_assoc, Nat.add_comm 1]
  nodes := rep.nodes.cons p
  objs b w := by
    have added := rep.places.push_front_node first (rep.nodeFresh fresh)
    have new := (List.nodup_cons.mp added.nodup_places).1
    exact (objs_update_some rep.objs new b w).trans List.mem_cons.symm

/-- From the last slot of a node put before the first one, the iterator goes back to where it
was. -/
theorem start_again (rep : Rep T d L xs) (first : L.skip = 0) (node : d.start.node = i + 1) :
    (slotIter T p (T.bufSize - 1) i).increment T (d.map.set i (some p)) = .ok d.start := by
  have whole := Nat.sub_add_cancel T.bufSize_pos
  have at_end : p + (T.bufSize - 1) * T.size + T.size = p + T.nodeSize := by
    rw [Nat.add_assoc, ← Nat.succ_mul, Nat.succ_eq_add_one, whole, ElemType.nodeSize]
  have next : (d.map.set i (some p))[i + 1]? = some (some L.front) := by
    have front := rep.front_entry
    rwa [node, ← List.getElem?_set_ne (j := i + 1) (Nat.lt_succ_self i).ne] at front
  have back : d.start = slotIter T L.front 0 (i + 1) := by
    rw [rep.start, first, node]
  rw [Iter.increment]
  simp only [Iter.withCur_cur, Iter.withCur_last, Iter.withCur_node, slotIter_cur,
    slotIter_last, slotIter_node, at_end, if_true, Iter.setNode_eq next, ok_bind]
  rw [back, slotIter_zero]
  rfl

theorem pushFrontNode (rep : Rep T d L xs) (first : L.skip = 0) (room : 1 ≤ d.start.node)
    (fresh : NodeFresh T d (some p)) (v : α) (env : Env) :
    ∃ d' o, d.pushFrontNode T p v env.copy = .ok (d', o) ∧
      Added T d' o env xs (fun a => (a, v) :: xs) ∧
      (d'.place = d.place ∨ o = .done ∧ d'.place = (d.mapSize, d.start.node - 1, d.finish.node)) := by
  obtain ⟨i, node⟩ := Nat.exists_eq_add_of_le' room
  have bound := rep.map.bound
  have inside : i < d.map.length := by omega
  have held : Holds (d.map.set i (some p)) d.start.node L.nodes :=
    rep.map.set _ (.inl (by omega))
  have new : (d.map.set i (some p))[i]? = some (some p) := List.getElem?_set_self inside
  have slot : p + (T.bufSize - 1) * T.size ∈ (d.allocateNode p).nodes.flatMap T.slots := by
    rw [allocateNode_nodes, List.flatMap_cons, List.mem_append]
    exact .inl (ElemType.mem_slots.mpr ⟨_, Nat.sub_lt T.bufSize_pos Nat.one_pos, rfl⟩)
  have added := rep.places.push_front_node first (rep.nodeFresh fresh)
  have free := (List.nodup_cons.mp added.nodup_places).1
  have constructs := construct_eq (d := ((d.allocateNode p).withMap
    (d.map.set i (some p))).withStart (slotIter T p (T.bufSize - 1) i)) (v := v) slot
    (rep.objs_eq_none free) env.copy
  have start : ({ d.start with first := p, last := p + T.nodeSize, node := i } : Iter).withCur
      (p + T.nodeSize - T.size) = slotIter T p (T.bufSize - 1) i := by
    rw [ElemType.last_slot]
    rfl
  rw [Deque.pushFrontNode, node, before, ok_bind, setEntry_eq p inside, ok_bind]
  simp only [withMap_start, withMap_map, allocateNode_start, Iter.setNode_eq new, ok_bind, start,
    withStart_start, slotIter_cur, constructs]
  cases copied : env.copy with
  | true =>
    refine ⟨_, _, rfl, .inl ⟨rfl, copied, _, _, free, rep.pushed_front_node first node fresh v⟩,
      .inr ⟨rfl, ?_⟩⟩
    rw [place]
    rfl
  | false =>
    have old : ((((d.allocateNode p).withMap (d.map.set i (some p))).withStart
        (slotIter T p (T.bufSize - 1) i)).withStart d.start).deallocateNode T p = _ :=
      rep.deallocate_fresh fresh (d.map.set i (some p))
    simp only [Bool.false_eq_true, if_false, withStart_map, withMap_map,
      rep.start_again first node, ok_bind, node, before, entry_eq new, old]
    exact ⟨_, _, rfl, .inr ⟨⟨L, rep.withMap held List.length_set⟩, .inr ⟨rfl, copied⟩⟩, .inl rfl⟩

/-- `push_front`. -/
theorem pushFront (rep : Rep T d L xs) (v : α) {env : Env} (fresh : NodeFresh T d env.node) :
    ∃ d₁ d' o, d.pushFront T v env = .ok (d', o) ∧
      Added T d' o env xs (fun a => (a, v) :: xs) ∧
      (¬d.MovesFront env ∧ d₁ = d ∨ d.MovesFront env ∧ Moved d d₁ 1 true) ∧
      (d'.place = d₁.place ∨
        o = .done ∧ d'.place = (d₁.mapSize, d₁.start.node - 1, d₁.finish.node)) := by
  rw [Deque.pushFront]
  split_ifs with more
  · -- not the first slot of the node
    have free := rep.start_at_start.not.mp more
    have new := rep.places.before_not_mem free
    have slot : d.start.cur - T.size ∈ d.nodes.flatMap T.slots := by
      rw [rep.mem_slots, rep.before_start free]
      exact (rep.places.push_front free).mem_nodes List.mem_cons_self
    rw [← rep.before_start free] at new
    have stays : ¬d.MovesFront env := fun moves => more moves.1
    rw [construct_eq slot (rep.objs_eq_none new), ok_bind]
    cases copied : env.copy with
    | true =>
      exact ⟨d, _, _, rfl, .inl ⟨rfl, copied, _, _, new, rep.pushed_front free v⟩,
        .inl ⟨stays, rfl⟩, .inl rfl⟩
    | false =>
      exact ⟨d, _, _, rfl, .inr ⟨⟨L, rep⟩, .inr ⟨rfl, copied⟩⟩, .inl ⟨stays, rfl⟩, .inl rfl⟩
  · have at_start := not_not.mp more
    have first := rep.start_at_start.mp at_start
    rw [Deque.pushFrontAux]
    rcases rep.reserveMapAtFront 1 env.map with ⟨d₁, done, rep₁, place, room⟩ | ⟨refused, none⟩
    · have place : ¬d.MovesFront env ∧ d₁ = d ∨ d.MovesFront env ∧ Moved d d₁ 1 true := by
        rcases place with ⟨enough, same⟩ | ⟨short, can, moved⟩
        · exact .inl ⟨fun moves => absurd moves.2.1 (by omega), same⟩
        · exact .inr ⟨⟨at_start, short, can⟩, moved⟩
      rw [done, ok_bind]
      cases node : env.node with
      | none => exact ⟨d₁, _, _, rfl, .inr ⟨⟨L, rep₁⟩, .inl ⟨rfl, .inr node⟩⟩, place, .inl rfl⟩
      | some p =>
        rw [node] at fresh
        rcases rep₁.pushFrontNode first room (rep.fresh_of_same rep₁ fresh) v env with
          ⟨d', o, added, result, places⟩
        exact ⟨d₁, d', o, added, result, place, places⟩
    · rw [none, ok_bind]
      have map := Bool.eq_false_iff.mpr (not_or.mp refused).2
      exact ⟨d, _, _, rfl, .inr ⟨⟨L, rep⟩, .inl ⟨rfl, .inl map⟩⟩,
        .inl ⟨fun moves => refused moves.2.2, rfl⟩, .inl rfl⟩

/-! ## Elements that are removed -/

/-- The elements of a deque have different addresses. -/
theorem nodup (rep : Rep T d L xs) : (xs.map Prod.fst).Nodup := rep.places.nodup_places

/-- The last element and its object are gone. -/
theorem objs_popped_back (rep : Rep T d L (xs ++ [(a, v)])) (b : Nat) (w : α) :
    (d.withObj a none).objs b = some w ↔ (b, w) ∈ xs := by
  have nodup := rep.nodup
  rw [List.map_append] at nodup
  have gone : a ∉ xs.map Prod.fst := fun member =>
    (List.nodup_append.mp nodup).2.2 a member a (List.mem_singleton_self a) rfl
  refine objs_update_none (v := v) (fun b w => ?_) gone b w
  rw [rep.objs, List.mem_append, List.mem_singleton, or_comm]

/-- The first element and its object are gone. -/
theorem objs_popped_front (rep : Rep T d L ((a, v) :: xs)) (b : Nat) (w : α) :
    (d.withObj a none).objs b = some w ↔ (b, w) ∈ xs :=
  objs_update_none (v := v) (fun b w => by rw [rep.objs, List.mem_cons])
    (List.nodup_cons.mp rep.nodup).1 b w

/-- `pop_back`, with the last element in the last node. -/
theorem popped_back (rep : Rep T d L (xs ++ [(a, v)])) (some : L.used ≠ 0) :
    d.popBack T = .ok ((d.withFinish (d.finish.withCur (d.finish.cur - T.size))).withObj a none) ∧
      Rep T ((d.withFinish (d.finish.withCur (d.finish.cur - T.size))).withObj a none)
        { L with used := L.used - 1 } xs := by
  have places := rep.places
  rw [List.map_append] at places
  obtain ⟨here, places'⟩ := places.pop_back some
  change a = _ at here
  have cur : d.finish.cur - T.size = a := by
    have := Nat.mul_le_mul_right T.size (Nat.pos_of_ne_zero some)
    rw [here, rep.finish_cur, Nat.sub_mul]
    omega
  have object : d.objs a = Option.some v :=
    (rep.objs a v).mpr (List.mem_append_right _ (List.mem_singleton_self _))
  refine ⟨?_, places', rep.map, rep.mapSize, rep.start, ?_, rep.nodes, rep.objs_popped_back⟩
  · rw [Deque.popBack, if_pos (rep.finish_at_start.not.mpr some)]
    simp only [withFinish_finish, Iter.withCur_cur, cur]
    exact destroy_eq (d := d.withFinish _) object
  · rw [withObj_finish, withFinish_finish, cur, here, rep.finish]
    rfl

/-- With no slot of the last node used, the elements are in the other nodes. -/
theorem back_empty (rep : Rep T d L xs) (unused : L.used = 0) :
    ∀ b ∈ T.slots L.back, d.objs b = none := by
  intro b inside
  refine rep.objs_eq_none fun member => ?_
  have slots := rep.places.slots
  rw [unused, progression_zero, List.append_nil] at slots
  have full : b ∈ L.full.flatMap T.slots := slots ▸ List.mem_append_right _ member
  have nodup := rep.places.nodup
  rw [List.flatMap_append, List.flatMap_singleton] at nodup
  exact (List.nodup_append.mp nodup).2.2 b full b inside rfl

/-- `pop_back`, with the last node empty. -/
theorem popped_back_node (rep : Rep T d L (xs ++ [(a, v)])) (unused : L.used = 0) :
    ∃ d' L', d.popBack T = .ok d' ∧ Rep T d' L' xs ∧ Shrinks d d' := by
  have places := rep.places
  rw [List.map_append] at places
  obtain ⟨full, back, at_end, here, places'⟩ := places.pop_back_node unused
  change a = _ at here
  have node : d.finish.node = d.start.node + full.length + 1 := by
    rw [rep.finish_node, at_end, List.length_append, List.length_singleton, Nat.add_assoc]
  have held := rep.map
  rw [Layout.nodes, at_end] at held
  have entry := (holds_append.mp held).1.last
  have first : d.finish.first = L.back := by
    rw [rep.finish]
    rfl
  have member : L.back ∈ d.nodes :=
    rep.nodes.mem_iff.mpr (List.mem_append_right _ (List.mem_singleton_self _))
  have object : d.objs a = some v :=
    (rep.objs a v).mpr (List.mem_append_right _ (List.mem_singleton_self _))
  have iter : ({ d.finish with
      first := back, last := back + T.nodeSize, node := d.start.node + full.length } :
      Iter).withCur (back + T.nodeSize - T.size) =
      slotIter T back (T.bufSize - 1) (d.start.node + full.length) := by
    rw [ElemType.last_slot]
    rfl
  refine ⟨((d.withoutNode L.back).withFinish
    (slotIter T back (T.bufSize - 1) (d.start.node + full.length))).withObj a none,
    { L with full, back, used := T.bufSize - 1 }, ?_, ⟨places', ?_, rep.mapSize, rep.start, rfl,
      ?_, rep.objs_popped_back⟩, ?_⟩
  · rw [Deque.popBack, if_neg (not_not.mpr (rep.finish_at_start.mpr unused)), popBackAux, first,
      deallocateNode_eq member (rep.back_empty unused), ok_bind]
    simp only [withoutNode_finish, node, before, ok_bind, withoutNode_map,
      Iter.setNode_eq entry, iter, withFinish_finish, slotIter_cur]
    rw [← here]
    exact destroy_eq (d := (d.withoutNode L.back).withFinish _) object
  · exact (holds_append.mp held).1
  · have perm := rep.nodes.trans (List.perm_append_singleton L.back L.full)
    have rest := perm.erase L.back
    rwa [List.erase_cons_head, at_end] at rest
  · refine ⟨rfl, le_rfl, ?_⟩
    rw [node]
    exact Nat.le_succ _

/-- `pop_back`. -/
theorem popBack (rep : Rep T d L (xs ++ [(a, v)])) :
    ∃ d' L', d.popBack T = .ok d' ∧ Rep T d' L' xs ∧ Shrinks d d' := by
  by_cases unused : L.used = 0
  · exact rep.popped_back_node unused
  · obtain ⟨popped, rep'⟩ := rep.popped_back unused
    exact ⟨_, _, popped, rep', rfl, le_rfl, le_rfl⟩

/-- `pop_front`, with more slots in the node of the first element. -/
theorem popped_front (rep : Rep T d L ((a, v) :: xs)) (more : L.skip + 1 < T.bufSize) :
    d.popFront T = .ok ((d.withObj a none).withStart (d.start.withCur (d.start.cur + T.size))) ∧
      Rep T ((d.withObj a none).withStart (d.start.withCur (d.start.cur + T.size)))
        { L with skip := L.skip + 1 } xs := by
  have here : a = _ := rep.places.first
  have object : d.objs a = some v := (rep.objs a v).mpr List.mem_cons_self
  refine ⟨?_, rep.places.pop_front more, rep.map, rep.mapSize, ?_, rep.finish, rep.nodes,
    rep.objs_popped_front⟩
  · rw [Deque.popFront, if_pos (rep.start_at_end.not.mpr more.ne), rep.start_cur, ← here,
      destroy_eq object, ok_bind, withObj_start, rep.start_cur, ← here]
    rfl
  · have next : L.front + L.skip * T.size + T.size = L.front + (L.skip + 1) * T.size := by
      rw [Nat.succ_mul, Nat.add_assoc]
    rw [withStart_start, rep.start_cur, next, rep.start]
    rfl

/-- `pop_front`, with the element in the last slot of its node. -/
theorem popped_front_node (rep : Rep T d L ((a, v) :: xs)) (last : L.skip + 1 = T.bufSize) :
    ∃ d' L', d.popFront T = .ok d' ∧ Rep T d' L' xs ∧ Shrinks d d' := by
  have here : a = _ := rep.places.first
  have object : d.objs a = some v := (rep.objs a v).mpr List.mem_cons_self
  obtain ⟨full, front, at_front, places'⟩ := rep.places.pop_front_node last
  have nodes : L.nodes = L.front :: (full ++ [L.back]) := by
    rw [Layout.nodes, at_front, List.cons_append]
  have held := rep.map
  have nodup := rep.places.nodup
  have perm := rep.nodes
  rw [nodes] at held nodup perm
  -- the other elements are in the other nodes
  have empty : ∀ b ∈ T.slots L.front, (d.withObj a none).objs b = none := by
    intro b inside
    rcases found : (d.withObj a none).objs b with _ | w
    · rfl
    · have member := places'.mem_nodes (List.mem_map_of_mem ((rep.objs_popped_front b w).mp found))
      rw [List.flatMap_cons] at nodup
      exact absurd rfl ((List.nodup_append.mp nodup).2.2 b inside b member)
  have cur : d.start.cur = a := rep.start_cur.trans here.symm
  have first : d.start.first = L.front := by
    rw [rep.start]
    rfl
  have entry := held.2.head places'.front
  refine ⟨((d.withObj a none).withoutNode L.front).withStart
    (slotIter T front 0 (d.start.node + 1)), { L with full, front, skip := 0 }, ?_,
    ⟨places', held.2, rep.mapSize, rfl, ?_, ?_, rep.objs_popped_front⟩, rfl, Nat.le_succ _, le_rfl⟩
  · rw [Deque.popFront, if_neg (not_not.mpr (rep.start_at_end.mpr last)), popFrontAux, cur,
      destroy_eq object, ok_bind, withObj_start, first,
      deallocateNode_eq (d := d.withObj a none) (perm.mem_iff.mpr List.mem_cons_self) empty,
      ok_bind, withoutNode_start, withoutNode_map, withObj_start, withObj_map,
      Iter.setNode_eq entry, ok_bind, slotIter_zero]
    rfl
  · rw [withStart_finish, withoutNode_finish, withObj_finish, rep.finish, at_front,
      List.length_cons, withStart_start, slotIter_node, Nat.add_right_comm, Nat.add_assoc]
  · have erased := perm.erase L.front
    rwa [List.erase_cons_head] at erased

/-- `pop_front`. -/
theorem popFront (rep : Rep T d L ((a, v) :: xs)) :
    ∃ d' L', d.popFront T = .ok d' ∧ Rep T d' L' xs ∧ Shrinks d d' := by
  have := rep.places.skip
  by_cases last : L.skip + 1 = T.bufSize
  · exact rep.popped_front_node last
  · obtain ⟨popped, rep'⟩ := rep.popped_front (by omega)
    exact ⟨_, _, popped, rep', rfl, le_rfl, le_rfl⟩

end Rep

end TorchTest.Deque
