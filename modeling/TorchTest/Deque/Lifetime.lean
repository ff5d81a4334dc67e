import TorchTest.Deque.Iterators

/-!
# The beginning and the end of a deque

The constructor, `clear()` and the destructor. `_M_destroy_data_aux` destroys the elements of
the full nodes first and those at the two ends after them, each once (`destroyDataAux_eq`);
`_M_destroy_nodes` gives nodes back in which nothing is left (`destroyNodes_eq`).
-/

namespace TorchTest.Deque

variable {T : ElemType} {α : Type} {d : Deque α} {L : Layout} {xs : List (Nat × α)}

/-! ## The constructor -/

/-- What the constructor makes: a map of eight, and one node in the middle. -/
def initial (T : ElemType) (p : Nat) : Deque α where
  map := [none, none, none, some p, none, none, none, none]
  mapSize := 8
  start := slotIter T p 0 3
  finish := slotIter T p 0 3
  nodes := [p]
  objs := fun _ => none

theorem create_eq (T : ElemType) (p : Nat) : create T p = .ok (initial T p : Deque α) := by
  rw [create, initial, slotIter_zero]
  simp only [Nat.zero_div, Nat.zero_mod]
  simp only [Nat.zero_mul, Nat.add_zero]
  rfl

theorem rep_initial (T : ElemType) (p : Nat) :
    Rep T (initial T p : Deque α) ⟨[], p, p, 0, 0⟩ [] where
  places := by
    refine ⟨rfl, T.bufSize_pos, T.bufSize_pos, rfl, ?_⟩
    change ([p].flatMap T.slots).Nodup
    rw [List.flatMap_singleton]
    exact ElemType.nodup_slots p
  map := ⟨rfl, True.intro⟩
  mapSize := rfl
  start := rfl
  finish := rfl
  nodes := .refl _
  objs a v := by simp [initial]

/-! ## Objects that are destroyed -/

/-- The elements at `as` are destroyed, one after the other. -/
def destroyAll (d : Deque α) : List Nat → Except Fault (Deque α)
  | [] => .ok d
  | a :: as => do
      let d ← d.destroy a
      d.destroyAll as

/-- No object is left at `as`. -/
def cleared (d : Deque α) (as : List Nat) : Deque α :=
  { d with objs := fun a => if a ∈ as then none else d.objs a }

theorem destroyAll_eq {as : List Nat} (nodup : as.Nodup) (objects : ∀ a ∈ as, d.objs a ≠ none) :
    d.destroyAll as = .ok (d.cleared as) := by
  induction as generalizing d with
  | nil => simp [destroyAll, cleared]
  | cons a as ih =>
    rw [List.nodup_cons] at nodup
    rw [List.forall_mem_cons] at objects
    obtain ⟨v, here⟩ := Option.ne_none_iff_exists'.mp objects.1
    rw [destroyAll, destroy_eq here, ok_bind, ih nodup.2]
    · congr 1
      simp only [cleared, withObj, Deque.mk.injEq, true_and]
      funext b
      by_cases same : b = a
      · simp [same]
      · simp [same]
    · intro b member
      have other : b ≠ a := ne_of_mem_of_not_mem member nodup.1
      rw [withObj_objs, Function.update_of_ne other]
      exact objects.2 b member

theorem destroyAll_append {as bs : List Nat} :
    d.destroyAll (as ++ bs) = (d.destroyAll as >>= fun d => d.destroyAll bs) := by
  induction as generalizing d with
  | nil => rfl
  | cons a as ih =>
    rw [List.cons_append, destroyAll, destroyAll]
    cases d.destroy a with
    | ok d => exact ih
    | error f => rfl

theorem destroyRange_eq (first n : Nat) :
    d.destroyRange T first n = d.destroyAll (progression first T.size n) := by
  induction n generalizing d first with
  | zero => rfl
  | succ n ih =>
    rw [destroyRange, progression_succ, destroyAll]
    simp only [ih]

theorem map_destroy {a : Nat} {d' : Deque α} (done : d.destroy a = .ok d') : d'.map = d.map := by
  rw [destroy] at done
  split at done
  · cases done
    rfl
  · cases done

theorem map_destroyAll {as : List Nat} {d' : Deque α} (done : d.destroyAll as = .ok d') :
    d'.map = d.map := by
  induction as generalizing d with
  | nil =>
    cases done
    rfl
  | cons a as ih =>
    rw [destroyAll] at done
    cases first : d.destroy a with
    | error f =>
      rw [first] at done
      cases done
    | ok d₁ =>
      rw [first] at done
      exact (ih done).trans (map_destroy first)

theorem destroyFull_eq {ps : List Nat} {i : Nat} (held : Holds d.map i ps) :
    d.destroyFull T i ps.length = d.destroyAll (ps.flatMap T.slots) := by
  induction ps generalizing d i with
  | nil => rfl
  | cons p ps ih =>
    rw [List.length_cons, destroyFull, entry_eq held.1, ok_bind, destroyRange_eq,
      ← ElemType.slots, List.flatMap_cons, destroyAll_append]
    cases first : d.destroyAll (T.slots p) with
    | error f => rfl
    | ok d₁ => exact ih (map_destroyAll first ▸ held.2)

/-- What is destroyed at an element iterator up to another one of its node. -/
theorem destroyRange_slots (p j k : Nat) :
    d.destroyRange T (p + j * T.size) ((p + k * T.size - (p + j * T.size)) / T.size) =
      d.destroyAll (progression (p + j * T.size) T.size (k - j)) := by
  rw [Nat.add_sub_add_left, ← Nat.sub_mul, Nat.mul_div_cancel _ T.size_pos, destroyRange_eq]

namespace Rep

/-- The elements may be destroyed in any order. -/
theorem destroyAll_perm (rep : Rep T d L xs) {as : List Nat} (perm : as.Perm (xs.map Prod.fst)) :
    d.destroyAll as = .ok (d.cleared (xs.map Prod.fst)) := by
  have objects : ∀ a ∈ as, d.objs a ≠ none := by
    intro a member
    obtain ⟨x, there, rfl⟩ := List.mem_map.mp (perm.mem_iff.mp member)
    rw [(rep.objs x.1 x.2).mpr there]
    exact Option.some_ne_none _
  rw [destroyAll_eq (perm.nodup_iff.mpr rep.nodup) objects]
  simp only [cleared, perm.mem_iff]

/-- `_M_destroy_data_aux` where all elements are in one node. -/
theorem destroyDataAux_one_node (rep : Rep T d L xs) (alone : L.full = []) :
    d.destroyDataAux T d.start d.finish = .ok (d.cleared (xs.map Prod.fst)) := by
  have slots := rep.places.slots
  have front := rep.places.front
  have length := rep.places.length
  unfold Layout.nodes at front
  rw [alone] at front slots length
  have same : L.front = L.back := (Option.some.inj front).symm
  rw [List.length_nil, Nat.zero_mul, Nat.zero_add] at length
  have skipped : L.skip ≤ L.used := by omega
  rw [List.flatMap_nil, List.nil_append, same, progression_split skipped] at slots
  have count : d.start.node + ([] : List Nat).length - (d.start.node + 1) = 0 := by
    rw [List.length_nil]
    omega
  rw [Deque.destroyDataAux, rep.finish_node, alone, count, destroyFull, ok_bind,
    if_neg (by simp), rep.finish_cur, rep.start_cur, same, destroyRange_slots]
  exact rep.destroyAll_perm (List.append_cancel_left slots ▸ .refl _)

/-- `_M_destroy_data_aux` where the first and the last element's nodes differ: the nodes between
them, then the two ends. -/
theorem destroyDataAux_several_nodes (rep : Rep T d L xs) {p : Nat} {mid : List Nat}
    (full : L.full = p :: mid) :
    d.destroyDataAux T d.start d.finish = .ok (d.cleared (xs.map Prod.fst)) := by
  have slots := rep.places.slots
  have front := rep.places.front
  have held := rep.map
  unfold Layout.nodes at front held
  rw [full] at front held slots
  have same : L.front = p := (Option.some.inj front).symm
  have count : d.start.node + (p :: mid).length - (d.start.node + 1) = mid.length := by
    rw [List.length_cons]
    omega
  have differ : d.start.node ≠ d.start.node + (p :: mid).length := by
    rw [List.length_cons]
    omega
  rw [List.flatMap_cons, ElemType.slots, same, progression_split rep.places.skip.le,
    List.append_assoc, List.append_assoc] at slots
  have elements := List.append_cancel_left slots
  have last : d.start.last = p + T.bufSize * T.size := by
    rw [rep.start, same]
    rfl
  have first : d.finish.first = L.back + 0 * T.size := by
    rw [rep.finish, Nat.zero_mul]
    rfl
  rw [Deque.destroyDataAux, rep.finish_node, full, count,
    destroyFull_eq (holds_append.mp held.2).1]
  simp only [if_pos differ, rep.start_cur, rep.finish_cur, last, first, same,
    destroyRange_slots, Nat.sub_zero, ← destroyAll_append]
  refine rep.destroyAll_perm ?_
  rw [elements, Nat.zero_mul, Nat.add_zero]
  exact List.perm_append_comm_assoc _ _ _

/-- `_M_destroy_data_aux` of all elements. -/
theorem destroyDataAux_eq (rep : Rep T d L xs) :
    d.destroyDataAux T d.start d.finish = .ok (d.cleared (xs.map Prod.fst)) := by
  cases full : L.full with
  | nil => exact rep.destroyDataAux_one_node full
  | cons p mid => exact rep.destroyDataAux_several_nodes full

end Rep

/-! ## Nodes that are given back -/

/-- `_M_destroy_nodes`: nothing is in the nodes, and the others stay. -/
theorem destroyNodes_eq {ps rest : List Nat} {i : Nat} (held : Holds d.map i ps)
    (perm : d.nodes.Perm (ps ++ rest)) (empty : ∀ a, d.objs a = none) :
    ∃ nodes, d.destroyNodes T i ps.length = .ok { d with nodes } ∧ nodes.Perm rest := by
  induction ps generalizing d i with
  | nil => exact ⟨d.nodes, rfl, perm⟩
  | cons p ps ih =>
    have member : p ∈ d.nodes := perm.mem_iff.mpr (List.mem_append_left _ List.mem_cons_self)
    have others : (d.withoutNode p).nodes.Perm (ps ++ rest) := by
      have erased := perm.erase p
      rwa [List.cons_append, List.erase_cons_head] at erased
    obtain ⟨nodes, done, same⟩ := ih (d := d.withoutNode p) held.2 others empty
    refine ⟨nodes, ?_, same⟩
    rw [List.length_cons, destroyNodes, entry_eq held.1, ok_bind,
      deallocateNode_eq member fun a _ => empty a, ok_bind, done]
    rfl

namespace Rep

/-- Nothing is left once all elements are destroyed. -/
theorem cleared_objs (rep : Rep T d L xs) (a : Nat) :
    (d.cleared (xs.map Prod.fst)).objs a = none := by
  by_cases member : a ∈ xs.map Prod.fst
  · exact if_pos member
  · exact (if_neg member).trans (rep.objs_eq_none member)

/-- `clear()`. -/
theorem clear (rep : Rep T d L xs) :
    ∃ d' L', d.clear T = .ok d' ∧ Rep T d' L' [] ∧ Shrinks d d' := by
  have front := rep.places.front
  have held := rep.map
  have perm := rep.nodes
  have nodup := rep.places.nodup
  have length := rep.length_nodes
  cases nodes : L.nodes with
  | nil => exact absurd nodes (List.append_ne_nil_of_right_ne_nil _ (List.cons_ne_nil _ _))
  | cons p rest =>
    rw [nodes] at front held perm nodup length
    have same : L.front = p := (Option.some.inj front).symm
    have count : d.finish.node + 1 - (d.start.node + 1) = rest.length := by
      rw [List.length_cons, numNodes] at length
      omega
    rcases destroyNodes_eq (T := T) (d := d.cleared (xs.map Prod.fst)) held.2
      (perm.trans (List.perm_append_singleton p rest).symm) rep.cleared_objs with
      ⟨nodes', done, only⟩
    refine ⟨({ d.cleared (xs.map Prod.fst) with nodes := nodes' } : Deque α).withFinish d.start,
      ⟨[], p, p, L.skip, L.skip⟩, ?_, ⟨⟨rfl, rep.places.skip, rep.places.skip,
      List.append_nil _, ?_⟩, ⟨held.1, True.intro⟩, rep.mapSize, ?_, ?_, only, ?_⟩, rfl, le_rfl,
      rep.finish_node.symm ▸ Nat.le_add_right _ _⟩
    · rw [Deque.clear, eraseAtEnd, rep.destroyDataAux_eq, ok_bind]
      change (do
        let d₁ ← (d.cleared (xs.map Prod.fst)).destroyNodes T (d.start.node + 1)
          (d.finish.node + 1 - (d.start.node + 1))
        return d₁.withFinish d.start) = _
      rw [count, done]
      rfl
    · change ([p].flatMap T.slots).Nodup
      rw [List.flatMap_singleton]
      exact ElemType.nodup_slots p
    · exact same ▸ rep.start
    · exact same ▸ rep.start
    · intro a v
      rw [withFinish_objs, rep.cleared_objs]
      simp

/-- The destructor gives every node back and destroys every element. -/
theorem dtor (rep : Rep T d L xs) : d.dtor T = .ok ([], fun _ => none) := by
  have length := rep.length_nodes
  have count : d.finish.node + 1 - d.start.node = L.nodes.length := by
    rw [length, numNodes, rep.finish_node]
    omega
  have all : d.nodes.Perm (L.nodes ++ []) := by
    rw [List.append_nil]
    exact rep.nodes
  rcases destroyNodes_eq (T := T) (d := d.cleared (xs.map Prod.fst)) rep.map all
    rep.cleared_objs with ⟨nodes, done, none⟩
  have given : deallocateMap d.map d.mapSize = .ok () := if_pos rep.mapSize
  rw [Deque.dtor, rep.destroyDataAux_eq, ok_bind]
  change (do
    let d₁ ← (d.cleared (xs.map Prod.fst)).destroyNodes T d.start.node
      (d.finish.node + 1 - d.start.node)
    deallocateMap d₁.map d₁.mapSize
    return (d₁.nodes, d₁.objs)) = _
  rw [count, done, ok_bind]
  change (do
    deallocateMap d.map d.mapSize
    return (nodes, (d.cleared (xs.map Prod.fst)).objs)) = _
  rw [given, ok_bind, none.eq_nil, funext rep.cleared_objs]
  rfl

/-- An element is assigned to. -/
theorem assign (rep : Rep T d L xs) {k a : Nat} {v : α} (here : xs[k]? = some (a, v)) (w : α) :
    d.assign a w = .ok (d.withObj a (some w)) ∧
      Rep T (d.withObj a (some w)) L (xs.set k (a, w)) := by
  have member := List.mem_of_getElem? here
  have object := (rep.objs a v).mpr member
  have inside := (List.getElem?_eq_some_iff.mp here).1
  have addresses : (xs.set k (a, w)).map Prod.fst = xs.map Prod.fst := by
    have there : (xs.map Prod.fst)[k]? = some a := by rw [List.getElem?_map, here]; rfl
    rw [List.map_set]
    exact List.ext_getElem? fun j => by
      rcases eq_or_ne k j with rfl | other
      · rw [List.getElem?_set_self (by rwa [List.length_map]), there]
      · rw [List.getElem?_set_ne other]
  refine ⟨by rw [Deque.assign, object], addresses.symm ▸ rep.places, rep.map, rep.mapSize,
    rep.start, rep.finish, rep.nodes, fun b u => ?_⟩
  have new : (xs.set k (a, w))[k]? = some (a, w) := List.getElem?_set_self inside
  rw [withObj_objs]
  rcases eq_or_ne b a with rfl | other
  · rw [Function.update_self, Option.some.injEq]
    constructor
    · rintro rfl
      exact List.mem_of_getElem? new
    · intro found
      have same := List.inj_on_of_nodup_map (addresses.symm ▸ rep.nodup) found
        (List.mem_of_getElem? new) rfl
      exact (Prod.mk.inj same).2.symm
  · rw [Function.update_of_ne other, rep.objs]
    constructor
    · intro found
      obtain ⟨j, at_j⟩ := List.mem_iff_getElem?.mp found
      have apart : k ≠ j := fun same => other (by
        rw [← same, here] at at_j
        exact (Prod.mk.inj (Option.some.inj at_j)).1.symm)
      exact List.mem_of_getElem? ((List.getElem?_set_ne apart).trans at_j)
    · intro found
      rcases List.mem_or_eq_of_mem_set found with old | new
      · exact old
      · exact absurd (Prod.mk.inj new).1 other

end Rep

end TorchTest.Deque
