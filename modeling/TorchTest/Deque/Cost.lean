import TorchTest.Deque.Refinement

/-!
# What a deque costs

The map is copied only when one end of it is reached. Then the nodes go to its middle, or to
a map twice as large, and so far from both ends that four pointers are copied for an element
that is added, on average (`copied_of_run`). No element is ever moved.

The nodes are those that the elements need and at most two more, and the map is bounded by
what the deque held at its largest (`space_of_run`).
-/

namespace TorchTest.Deque

variable {α : Type} {T : ElemType} {d d' d₁ : Deque α} {xs : List (Nat × α)} {L : Layout}
  {e : Event α}

/-! ## What is copied -/

/-- `copy`, with the number of pointers that it copies. -/
def copyCounted : Nat → List (Option Nat) → Nat → Nat → Except Fault (List (Option Nat) × Nat)
  | 0, map, _, _ => .ok (map, 0)
  | n + 1, map, first, result => do
      let p ← entry map first
      let map ← setEntry map result p
      let (map, count) ← copyCounted n map (first + 1) (result + 1)
      return (map, count + 1)

/-- `copyBackward`, with the number of pointers that it copies. -/
def copyBackwardCounted :
    Nat → List (Option Nat) → Nat → Nat → Except Fault (List (Option Nat) × Nat)
  | 0, map, _, _ => .ok (map, 0)
  | n + 1, map, last, result => do
      let last ← before last
      let result ← before result
      let p ← entry map last
      let map ← setEntry map result p
      let (map, count) ← copyBackwardCounted n map last result
      return (map, count + 1)

/-- `copyTo`, with the number of pointers that it copies. -/
def copyToCounted (map : List (Option Nat)) :
    Nat → Nat → List (Option Nat) → Nat → Except Fault (List (Option Nat) × Nat)
  | 0, _, newMap, _ => .ok (newMap, 0)
  | n + 1, first, newMap, result => do
      let p ← entry map first
      let newMap ← setEntry newMap result p
      let (newMap, count) ← copyToCounted map n (first + 1) newMap (result + 1)
      return (newMap, count + 1)

theorem map_bind {β γ δ : Type} (x : Except Fault β) (f : β → Except Fault γ) (g : γ → δ) :
    (x >>= f).map g = x >>= fun b => (f b).map g := by
  cases x <;> rfl

/-- One more is counted. -/
theorem counted_succ {β : Type} (x : Except Fault β) (n : Nat) :
    (x.map (·, n) >>= fun r => pure (r.1, r.2 + 1)) = x.map (·, n + 1) := by
  cases x <;> rfl

/-- What comes after the copies does not count. -/
theorem counted_bind {β γ : Type} (x : Except Fault β) (f : β → Except Fault γ) (n : Nat) :
    (x.map (·, n) >>= fun r => f r.1 >>= fun c => pure (some c, r.2)) =
      (x >>= fun b => f b >>= fun c => pure (some c)).map (·, n) := by
  cases x with
  | error e => rfl
  | ok b =>
    simp only [Except.map, ok_bind]
    cases f b <;> rfl

theorem copyCounted_eq (n : Nat) (map : List (Option Nat)) (first result : Nat) :
    copyCounted n map first result = (copy n map first result).map (·, n) := by
  induction n generalizing map first result with
  | zero => rfl
  | succ n ih => simp only [copyCounted, copy, map_bind, ih, counted_succ]

theorem copyBackwardCounted_eq (n : Nat) (map : List (Option Nat)) (last result : Nat) :
    copyBackwardCounted n map last result = (copyBackward n map last result).map (·, n) := by
  induction n generalizing map last result with
  | zero => rfl
  | succ n ih => simp only [copyBackwardCounted, copyBackward, map_bind, ih, counted_succ]

theorem copyToCounted_eq (map : List (Option Nat)) (n first : Nat) (newMap : List (Option Nat))
    (result : Nat) :
    copyToCounted map n first newMap result = (copyTo map n first newMap result).map (·, n) := by
  induction n generalizing first newMap result with
  | zero => rfl
  | succ n ih => simp only [copyToCounted, copyTo, map_bind, ih, counted_succ]

/-- `_M_reallocate_map`, with the number of pointers that it copies. -/
def reallocateMapCounted (T : ElemType) (d : Deque α) (nodesToAdd : Nat)
    (addAtFront granted : Bool) : Except Fault (Option (Deque α) × Nat) :=
  let oldNumNodes := d.finish.node - d.start.node + 1
  let newNumNodes := oldNumNodes + nodesToAdd
  if 2 * newNumNodes < d.mapSize then do
    let newNstart := (d.mapSize - newNumNodes) / 2 + if addAtFront then nodesToAdd else 0
    let (map, count) ←
      (if newNstart < d.start.node then copyCounted oldNumNodes d.map d.start.node newNstart
      else copyBackwardCounted oldNumNodes d.map (d.finish.node + 1) (newNstart + oldNumNodes))
    let d ← (d.withMap map).setNodes T newNstart oldNumNodes
    return (some d, count)
  else if granted then do
    let newMapSize := d.mapSize + max d.mapSize nodesToAdd + 2
    let newNstart := (newMapSize - newNumNodes) / 2 + if addAtFront then nodesToAdd else 0
    let (newMap, count) ←
      copyToCounted d.map oldNumNodes d.start.node (List.replicate newMapSize none) newNstart
    deallocateMap d.map d.mapSize
    let d ← { d with map := newMap, mapSize := newMapSize }.setNodes T newNstart oldNumNodes
    return (some d, count)
  else .ok (none, 0)

/-- The pointers that `_M_reallocate_map` copies. -/
def moves (d : Deque α) (nodesToAdd : Nat) (granted : Bool) : Nat :=
  if d.CanMove nodesToAdd granted then d.numNodes else 0

/-- Counting changes nothing, and what is counted are the nodes there are. -/
theorem reallocateMapCounted_eq (d : Deque α) (nodesToAdd : Nat) (addAtFront granted : Bool) :
    d.reallocateMapCounted T nodesToAdd addAtFront granted =
      (d.reallocateMap T nodesToAdd addAtFront granted).map (·, d.moves nodesToAdd granted) := by
  have nodes : d.finish.node - d.start.node + 1 = d.numNodes := rfl
  simp only [reallocateMapCounted, reallocateMap, nodes]
  by_cases half : 2 * (d.numNodes + nodesToAdd) < d.mapSize
  · have moves : d.moves nodesToAdd granted = d.numNodes := if_pos (.inl half)
    simp only [if_pos half, moves, copyCounted_eq, copyBackwardCounted_eq]
    split_ifs <;> exact counted_bind _ (fun map => (d.withMap map).setNodes T _ d.numNodes) _
  · by_cases grants : granted = true
    · have moves : d.moves nodesToAdd granted = d.numNodes := if_pos (.inr grants)
      simp only [if_neg half, if_pos grants, moves, copyToCounted_eq]
      cases deallocateMap d.map d.mapSize with
      | error f =>
        generalize copyTo d.map d.numNodes _ _ _ = copies
        cases copies <;> rfl
      | ok u =>
        exact counted_bind _ (fun map => Deque.setNodes T { d with map, mapSize := _ } _ _) _
    · have moves : d.moves nodesToAdd granted = 0 := if_neg (not_or.mpr ⟨half, grants⟩)
      simp only [if_neg half, if_neg grants, moves]
      rfl

/-- How many pointers of the map are copied in a call: those of `_M_reallocate_map`, where the
call gets there. -/
def copied (T : ElemType) (d : Deque α) : Event α → Nat
  | .pushBack _ env => if d.MovesBack T env then d.numNodes else 0
  | .pushFront _ env => if d.MovesFront env then d.numNodes else 0
  | _ => 0

theorem copied_pushBack (d : Deque α) (v : α) (env : Env) :
    copied T d (.pushBack v env) =
      if d.finish.cur = d.finish.last - T.size ∧ d.mapSize - d.finish.node < 1 + 1 then
        d.moves 1 env.map
      else 0 := by
  simp only [copied, MovesBack, moves, ← and_assoc, ite_and]

theorem copied_pushFront (d : Deque α) (v : α) (env : Env) :
    copied T d (.pushFront v env) =
      if d.start.cur = d.start.first ∧ d.start.node < 1 then d.moves 1 env.map else 0 := by
  simp only [copied, MovesFront, moves, ← and_assoc, ite_and]

/-! ## Four for each element -/

/-- The call returns. -/
def Result.isDone : Result α → Bool
  | .done => true
  | _ => false

/-- How many elements a call adds. -/
def added (T : ElemType) (d : Deque α) : Event α → Nat
  | .pushBack v env => (d.step T (.pushBack v env)).2.isDone.toNat
  | .pushFront v env => (d.step T (.pushFront v env)).2.isDone.toNat
  | _ => 0

/-- What is lacking at the ends of the map to a quarter of it. -/
def lack (place : Nat × Nat × Nat) : Nat :=
  (place.1 - 4 * place.2.1) + (place.1 - 4 * (place.1 - 1 - place.2.2))

theorem Shrinks.lack_le (shrinks : Shrinks d d') : lack d'.place ≤ lack d.place := by
  obtain ⟨size, start, finish⟩ := shrinks
  simp only [lack, place, size]
  omega

namespace Rep

/-- Nodes that move from the back of the map. -/
theorem lack_moved_back (rep : Rep T d L xs) {env : Env} (moves : d.MovesBack T env)
    (moved : Moved d d₁ 1 false) : d.numNodes + lack d₁.place ≤ lack d.place := by
  have bound := rep.numNodes_le
  have last := rep.finish_succ
  have short := moves.2.1
  have last' := moved.finish_succ
  obtain ⟨fits, start, _, size⟩ := moved
  simp only [Bool.false_eq_true, if_false] at start
  simp only [lack, Deque.place]
  omega

/-- Nodes that move from the front of the map. -/
theorem lack_moved_front (rep : Rep T d L xs) {env : Env} (moves : d.MovesFront env)
    (moved : Moved d d₁ 1 true) : d.numNodes + lack d₁.place ≤ lack d.place := by
  have bound := rep.numNodes_le
  have last := rep.finish_succ
  have short := moves.2.1
  have last' := moved.finish_succ
  obtain ⟨fits, start, _, size⟩ := moved
  simp only [if_true] at start
  simp only [lack, Deque.place]
  omega

/-- Nodes that move from the front of the map, and one that is added there. -/
theorem lack_added_front (rep : Rep T d L xs) {env : Env} (moves : d.MovesFront env)
    (moved : Moved d d₁ 1 true) :
    d.numNodes + lack (d₁.mapSize, d₁.start.node - 1, d₁.finish.node) ≤ lack d.place + 4 := by
  have bound := rep.numNodes_le
  have last := rep.finish_succ
  have short := moves.2.1
  have last' := moved.finish_succ
  obtain ⟨fits, start, _, size⟩ := moved
  simp only [if_true] at start
  simp only [lack, Deque.place]
  omega

/-- A call pays for what it copies with what the ends of the map lacked, and four more if it
adds an element. -/
theorem paid (rep : Rep T d L xs) (placed : Placed T d e (d.step T e).2 (d.step T e).1) :
    copied T d e + lack (d.step T e).1.place ≤ lack d.place + 4 * added T d e := by
  cases e with
  | pushBack v env =>
    obtain ⟨d₁, moves, place⟩ := placed
    rw [copied]
    rcases moves with ⟨stays, rfl⟩ | ⟨moves, moved⟩
    · rw [if_neg stays]
      rcases place with place | ⟨done, place⟩
      · rw [place]
        omega
      · rw [place, added, done, Result.isDone, Bool.toNat_true]
        simp only [lack, Deque.place]
        omega
    · have back := rep.lack_moved_back moves moved
      rw [if_pos moves]
      rcases place with place | ⟨done, place⟩
      · rw [place]
        omega
      · rw [place, added, done, Result.isDone, Bool.toNat_true]
        simp only [lack, Deque.place] at *
        omega
  | pushFront v env =>
    obtain ⟨d₁, moves, place⟩ := placed
    rw [copied]
    rcases moves with ⟨stays, rfl⟩ | ⟨moves, moved⟩
    · rw [if_neg stays]
      rcases place with place | ⟨done, place⟩
      · rw [place]
        omega
      · rw [place, added, done, Result.isDone, Bool.toNat_true]
        simp only [lack, Deque.place]
        omega
    · rw [if_pos moves]
      rcases place with place | ⟨done, place⟩
      · have front := rep.lack_moved_front moves moved
        rw [place]
        omega
      · have front := rep.lack_added_front moves moved
        rwa [place, added, done, Result.isDone, Bool.toNat_true, Nat.mul_one]
  | _ => exact (Nat.zero_add _).trans_le (Shrinks.lack_le placed)

end Rep

/-- Whatever is called on a new deque, at most four pointers are copied for each element that
is added. -/
theorem copied_of_run {p : Nat} {es : List (Event α)} (created : create T p = .ok d)
    (run : Admissible (Deque.step T) (Allowed T) d es) :
    totalCost (Deque.step T) (copied T) d es ≤ 4 * totalCost (Deque.step T) (added T) d es := by
  have start := represents_create created
  have paid := run.amortized (copied T) (fun d e => 4 * added T d e) (fun d => lack d.place)
    ⟨[], start⟩ Represents.keep fun d e some allowed => by
      obtain ⟨xs, represents⟩ := some
      obtain ⟨_, _, _, placed⟩ := represents.step allowed
      obtain ⟨L, rep⟩ := represents
      exact rep.paid placed
  have new : lack d.place = 0 := by
    rw [create_eq] at created
    cases created
    rfl
  rw [new, totalCost_mul] at paid
  omega

/-- As a queue, one element a node: the nodes come to the end of the map, and go back to its
middle. A push that is refused its node is not counted. -/
theorem copied_of_run_queue :
    let T : ElemType := ⟨512, by decide⟩
    let d : Deque Nat := initial T 4096
    let es : List (Event Nat) := (List.range 5).flatMap fun k =>
      [.pushBack k ⟨false, none, true⟩, .pushBack k ⟨false, some (4608 + 512 * k), true⟩, .popFront]
    totalCost (Deque.step T) (copied T) d es ≤ 4 * 5 ∧
      (after (Deque.step T) d es).mapSize = 8 := by
  intro T d es
  have run : Admissible (Deque.step T) (Allowed T) d es := by decide +kernel
  have five : totalCost (Deque.step T) (added T) d es = 5 := by decide +kernel
  exact ⟨five ▸ copied_of_run (create_eq T 4096) run, by decide +kernel⟩

/-! ## Space -/

/-- The number of elements. -/
def length (T : ElemType) (d : Deque α) : Nat := (d.size T).toNat

theorem Rep.length_eq (rep : Rep T d L xs) : d.length T = xs.length := by
  rw [length, rep.size_eq, Int.toNat_natCast]

/-- There are at most two nodes more than the elements fill. -/
theorem Rep.numNodes_lt (rep : Rep T d L xs) :
    d.numNodes * T.bufSize < xs.length + 2 * T.bufSize := by
  have inside := rep.places.length
  have skip := rep.places.skip
  rw [List.length_map] at inside
  rw [numNodes, rep.finish_node, Nat.add_sub_cancel_left, Nat.succ_mul]
  omega

/-- The map is at most as large as one for the most elements so far. -/
def Spare (T : ElemType) (d : Deque α) (most : Nat) : Prop :=
  ∃ xs, Represents T d xs ∧ xs.length ≤ most ∧
    d.mapSize * T.bufSize ≤ 4 * most + 14 * T.bufSize

/-- A map that is replaced was more than half full. -/
theorem Rep.mapSize_moved {most : Nat} {addAtFront : Bool} (rep : Rep T d L xs)
    (few : xs.length ≤ most) (small : d.mapSize * T.bufSize ≤ 4 * most + 14 * T.bufSize)
    (moved : Moved d d₁ 1 addAtFront) : d₁.mapSize * T.bufSize ≤ 4 * most + 14 * T.bufSize := by
  rcases moved.size with ⟨_, same⟩ | ⟨half, grown⟩
  · rwa [same]
  · have bound := rep.numNodes_le
    have nodes := rep.numNodes_lt
    have positive : 1 ≤ d.numNodes := Nat.le_add_left ..
    have size : d₁.mapSize ≤ 4 * d.numNodes + 6 := by
      rw [grown]
      omega
    have bytes := Nat.mul_le_mul_right T.bufSize size
    rw [Nat.add_mul, Nat.mul_assoc] at bytes
    omega

/-- A call leaves the size of the map, or moves the nodes to another one. -/
theorem Placed.mapSize {r : Result α} (placed : Placed T d e r d') :
    d'.mapSize = d.mapSize ∨ ∃ d₁ front, Moved d d₁ 1 front ∧ d'.mapSize = d₁.mapSize := by
  have size : ∀ {d₁ : Deque α} {i j : Nat},
      d'.place = d₁.place ∨ r = .done ∧ d'.place = (d₁.mapSize, i, j) →
        d'.mapSize = d₁.mapSize := by
    intro d₁ i j place
    rcases place with place | ⟨_, place⟩
    · exact congrArg Prod.fst place
    · exact congrArg Prod.fst place
  cases e with
  | pushBack v env =>
    rcases placed with ⟨d₁, ⟨_, rfl⟩ | ⟨_, moved⟩, place⟩
    · exact .inl (size place)
    · exact .inr ⟨d₁, false, moved, size place⟩
  | pushFront v env =>
    rcases placed with ⟨d₁, ⟨_, rfl⟩ | ⟨_, moved⟩, place⟩
    · exact .inl (size place)
    · exact .inr ⟨d₁, true, moved, size place⟩
  | _ => exact .inl placed.size

theorem Spare.step {most : Nat} (spare : Spare T d most) (allowed : d.Allowed T e) :
    Spare T (d.step T e).1 (max most ((d.step T e).1.length T)) := by
  obtain ⟨xs, represents, few, small⟩ := spare
  obtain ⟨xs', _, represents', placed⟩ := represents.step allowed
  refine ⟨xs', represents', ?_, ?_⟩
  · obtain ⟨L', rep'⟩ := represents'
    rw [rep'.length_eq]
    exact le_max_right _ _
  · have more : most ≤ max most ((d.step T e).1.length T) := le_max_left _ _
    obtain ⟨L, rep⟩ := represents
    rcases placed.mapSize with same | ⟨d₁, front, moved, size⟩
    · rw [same]
      omega
    · have bound := rep.mapSize_moved few small moved
      rw [size]
      omega

/-- Whatever is called on a new deque, its nodes have less than two nodes of slots more than
there are elements, and its map is bounded by the elements of its largest state. -/
theorem space_of_run {p : Nat} {es : List (Event α)} (created : create T p = .ok d)
    (run : Admissible (Deque.step T) (Allowed T) d es) :
    let d' := after (Deque.step T) d es
    d'.nodes.length * T.bufSize < d'.length T + 2 * T.bufSize ∧
      d'.mapSize * T.bufSize ≤ 4 * peak (Deque.step T) (Deque.length T) d es + 14 * T.bufSize := by
  intro d'
  have start : Spare T d (d.length T) := by
    have new := created
    rw [create_eq] at new
    cases new
    refine ⟨[], represents_create created, Nat.zero_le _, ?_⟩
    change 8 * T.bufSize ≤ _
    omega
  have spare : Spare T d' (peak (Deque.step T) (Deque.length T) d es) :=
    run.peak_invariant start fun d e most spare allowed => spare.step allowed
  obtain ⟨xs, ⟨L, rep⟩, _, small⟩ := spare
  have nodes := rep.numNodes_lt
  rw [← rep.length_nodes, ← rep.nodes.length_eq, ← rep.length_eq] at nodes
  exact ⟨nodes, small⟩

/-- Twelve elements of sixteen bytes, of which one is left. -/
theorem space_of_run_sample :
    let T : ElemType := ⟨16, by decide⟩
    let d : Deque Nat := initial T 4096
    let es : List (Event Nat) := (List.range 12).map (.pushBack · ⟨false, none, true⟩) ++
      List.replicate 11 .popBack
    let d' := after (Deque.step T) d es
    d'.nodes.length * 32 < 1 + 2 * 32 ∧ d'.mapSize * 32 ≤ 4 * 12 + 14 * 32 := by
  intro T d es d'
  have run : Admissible (Deque.step T) (Allowed T) d es := by decide +kernel
  have most : peak (Deque.step T) (Deque.length T) d es = 12 := by decide +kernel
  have now : d'.length T = 1 := by decide +kernel
  have size : T.bufSize = 32 := by decide
  have space : d'.nodes.length * T.bufSize < d'.length T + 2 * T.bufSize ∧ _ :=
    space_of_run (create_eq T 4096) run
  rw [most, now, size] at space
  exact space

end TorchTest.Deque
