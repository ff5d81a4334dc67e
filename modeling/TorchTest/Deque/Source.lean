import Mathlib.Logic.Function.Basic
import Mathlib.Tactic.Simps.Basic
import TorchTest.Library.Interval

/-!
# `std::deque`

`stl/include/bits/stl_deque.h` and `bits/deque.tcc`, as far as `MyStack`, `std::queue` and
`std::stack` use them. The elements lie in nodes of `bufSize` slots each, and the map is an
array of pointers to the nodes.

A map pointer is an index into the map, and element pointers are addresses. What C++ leaves
undefined is a `Fault`: a map entry that is not there or was never written, an object that is
constructed outside the nodes or over another one, read or destroyed where there is none, and
a node that is given back twice or with an object in it. An element type has a destructor that
is not trivial; for the others `_M_destroy_data` is skipped.

`Env` has the answers of the system in one call: whether it grants a new map, where it puts a
new node if it grants one, and whether the copy constructor of the element returns.
-/

namespace TorchTest.Deque

/-- The element type: `sizeof(_Tp)`. -/
structure ElemType where
  size : Nat
  size_pos : 0 < size

variable (T : ElemType)

/-- `__deque_buf_size(sizeof(_Tp))`. -/
def ElemType.bufSize : Nat := if T.size < 512 then 512 / T.size else 1

/-- The bytes of a node. -/
def ElemType.nodeSize : Nat := T.bufSize * T.size

/-- The slots of the node at `p`. -/
def ElemType.slots (p : Nat) : List Nat := progression p T.size T.bufSize

/-- What would be undefined. -/
inductive Fault
  | badMap
  | badNode
  | badObject
  deriving DecidableEq, Repr

/-- The answers to one call. -/
structure Env where
  map : Bool
  node : Option Nat
  copy : Bool
  deriving DecidableEq, Repr

/-! ## The map -/

/-- `*(_M_map + i)`. -/
def entry (map : List (Option Nat)) (i : Nat) : Except Fault Nat :=
  match map[i]? with
  | some (some p) => .ok p
  | _ => .error .badMap

/-- `*(_M_map + i) = p`. -/
def setEntry (map : List (Option Nat)) (i p : Nat) : Except Fault (List (Option Nat)) :=
  if i < map.length then .ok (map.set i (some p)) else .error .badMap

/-- `i - 1`, a pointer into the map. -/
def before : Nat → Except Fault Nat
  | 0 => .error .badMap
  | i + 1 => .ok i

/-- `i + n`, a pointer into the map. -/
def offsetBy (i : Nat) (n : Int) : Except Fault Nat :=
  if 0 ≤ i + n then .ok (i + n).toNat else .error .badMap

/-- `std::copy` of `n` entries from `first` on, to a place of the same map. -/
def copy : Nat → List (Option Nat) → Nat → Nat → Except Fault (List (Option Nat))
  | 0, map, _, _ => .ok map
  | n + 1, map, first, result => do
      let p ← entry map first
      let map ← setEntry map result p
      copy n map (first + 1) (result + 1)

/-- `std::copy_backward` of the `n` entries before `last`, to before `result`. -/
def copyBackward : Nat → List (Option Nat) → Nat → Nat → Except Fault (List (Option Nat))
  | 0, map, _, _ => .ok map
  | n + 1, map, last, result => do
      let last ← before last
      let result ← before result
      let p ← entry map last
      let map ← setEntry map result p
      copyBackward n map last result

/-- `std::copy` of `n` entries to another map. -/
def copyTo (map : List (Option Nat)) :
    Nat → Nat → List (Option Nat) → Nat → Except Fault (List (Option Nat))
  | 0, _, newMap, _ => .ok newMap
  | n + 1, first, newMap, result => do
      let p ← entry map first
      let newMap ← setEntry newMap result p
      copyTo map n (first + 1) newMap (result + 1)

/-! ## Iterators -/

/-- `_Deque_iterator`. -/
structure Iter where
  cur : Nat
  first : Nat
  last : Nat
  node : Nat
  deriving DecidableEq, Repr

namespace Iter

/-- `_M_cur = cur`. -/
@[simps] def withCur (it : Iter) (cur : Nat) : Iter := { it with cur }

/-- `_M_set_node(newNode)`. -/
def setNode (it : Iter) (map : List (Option Nat)) (newNode : Nat) : Except Fault Iter := do
  let p ← entry map newNode
  return { it with first := p, last := p + T.nodeSize, node := newNode }

/-- `operator++`. -/
def increment (it : Iter) (map : List (Option Nat)) : Except Fault Iter :=
  let it := it.withCur (it.cur + T.size)
  if it.cur = it.last then do
    let it ← it.setNode T map (it.node + 1)
    return it.withCur it.first
  else .ok it

/-- `operator--`. -/
def decrement (it : Iter) (map : List (Option Nat)) : Except Fault Iter :=
  if it.cur = it.first then do
    let node ← before it.node
    let it ← it.setNode T map node
    return it.withCur (it.last - T.size)
  else .ok (it.withCur (it.cur - T.size))

/-- The distance of two element pointers. -/
def gap (a b : Nat) : Int := ((b : Int) - a) / T.size

/-- `__node_offset` in `operator+=`. -/
def nodeOffset (offset : Int) : Int :=
  if 0 < offset then offset / T.bufSize else -((-offset - 1) / T.bufSize) - 1

/-- `operator+=`. -/
def advance (it : Iter) (map : List (Option Nat)) (n : Int) : Except Fault Iter :=
  let offset := n + gap T it.first it.cur
  if 0 ≤ offset ∧ offset < T.bufSize then .ok (it.withCur (it.cur + n * T.size).toNat)
  else do
    let node ← offsetBy it.node (nodeOffset T offset)
    let it ← it.setNode T map node
    return it.withCur (it.first + (offset - nodeOffset T offset * T.bufSize) * T.size).toNat

/-- `operator-` of two iterators. -/
def distance (x y : Iter) : Int :=
  T.bufSize * (x.node - y.node - 1) + gap T x.first x.cur + gap T y.cur y.last

/-- `operator==`. -/
def same (x y : Iter) : Bool := x.cur = y.cur

/-- `operator<`. -/
def less (x y : Iter) : Bool := if x.node = y.node then x.cur < y.cur else x.node < y.node

end Iter

end TorchTest.Deque

/-! ## The container -/

/-- `_Deque_impl`, with the nodes it has and the objects in them. -/
structure TorchTest.Deque (α : Type) where
  map : List (Option Nat)
  mapSize : Nat
  start : Deque.Iter
  finish : Deque.Iter
  nodes : List Nat
  objs : Nat → Option α

namespace TorchTest.Deque

variable (T : ElemType) {α : Type}

/-- `_M_map = map`, or a write to it. -/
@[simps] def withMap (d : Deque α) (map : List (Option Nat)) : Deque α := { d with map }

/-- `_M_start = it`. -/
@[simps] def withStart (d : Deque α) (it : Iter) : Deque α := { d with start := it }

/-- `_M_finish = it`. -/
@[simps] def withFinish (d : Deque α) (it : Iter) : Deque α := { d with finish := it }

/-- What is at `a` from now on. -/
@[simps] def withObj (d : Deque α) (a : Nat) (o : Option α) : Deque α :=
  { d with objs := Function.update d.objs a o }

/-- `_M_allocate_node()`, answered with the address `p`. -/
@[simps] def allocateNode (d : Deque α) (p : Nat) : Deque α := { d with nodes := p :: d.nodes }

/-- The node at `p` is gone. -/
@[simps] def withoutNode (d : Deque α) (p : Nat) : Deque α :=
  { d with nodes := d.nodes.erase p }

/-- `_M_deallocate_node(p)`. -/
def deallocateNode (d : Deque α) (p : Nat) : Except Fault (Deque α) :=
  if p ∈ d.nodes ∧ ∀ a ∈ T.slots p, d.objs a = none then .ok (d.withoutNode p)
  else .error .badNode

/-- `construct(a, v)`; `none` is the exception of the copy constructor. -/
def construct (d : Deque α) (a : Nat) (v : α) (copied : Bool) :
    Except Fault (Option (Deque α)) :=
  if a ∈ d.nodes.flatMap T.slots ∧ d.objs a = none then
    .ok (if copied then some (d.withObj a (some v)) else none)
  else .error .badObject

/-- `destroy(a)`. -/
def destroy (d : Deque α) (a : Nat) : Except Fault (Deque α) :=
  match d.objs a with
  | some _ => .ok (d.withObj a none)
  | none => .error .badObject

/-- The element at `a`. -/
def read (d : Deque α) (a : Nat) : Except Fault α :=
  match d.objs a with
  | some v => .ok v
  | none => .error .badObject

/-- The element at `a` is assigned to. -/
def assign (d : Deque α) (a : Nat) (v : α) : Except Fault (Deque α) :=
  match d.objs a with
  | some _ => .ok (d.withObj a (some v))
  | none => .error .badObject

/-- `_M_deallocate_map(_M_map, n)`. -/
def deallocateMap (map : List (Option Nat)) (n : Nat) : Except Fault Unit :=
  if n = map.length then .ok () else .error .badMap

/-- The constructor of an empty deque, `_M_initialize_map(0)`, with its node at `p`. -/
def create (p : Nat) : Except Fault (Deque α) := do
  let numNodes := 0 / T.bufSize + 1
  let mapSize := max 8 (numNodes + 2)
  let nstart := (mapSize - numNodes) / 2
  let map ← setEntry (List.replicate mapSize none) nstart p
  let unset : Iter := ⟨0, 0, 0, 0⟩
  let start ← unset.setNode T map nstart
  let finish ← unset.setNode T map (nstart + numNodes - 1)
  return { map, mapSize, nodes := [p], objs := fun _ => none
           start := start.withCur start.first
           finish := finish.withCur (finish.first + 0 % T.bufSize * T.size) }

/-- `_M_start` and `_M_finish` get their nodes, the last lines of `_M_reallocate_map`. -/
def setNodes (d : Deque α) (newNstart oldNumNodes : Nat) : Except Fault (Deque α) := do
  let start ← d.start.setNode T d.map newNstart
  let finish ← d.finish.setNode T d.map (newNstart + oldNumNodes - 1)
  return (d.withStart start).withFinish finish

/-- `_M_reallocate_map`; `none` is `std::bad_alloc`. -/
def reallocateMap (d : Deque α) (nodesToAdd : Nat) (addAtFront granted : Bool) :
    Except Fault (Option (Deque α)) :=
  let oldNumNodes := d.finish.node - d.start.node + 1
  let newNumNodes := oldNumNodes + nodesToAdd
  if 2 * newNumNodes < d.mapSize then do
    let newNstart := (d.mapSize - newNumNodes) / 2 + if addAtFront then nodesToAdd else 0
    let map ←
      (if newNstart < d.start.node then copy oldNumNodes d.map d.start.node newNstart
      else copyBackward oldNumNodes d.map (d.finish.node + 1) (newNstart + oldNumNodes))
    let d ← (d.withMap map).setNodes T newNstart oldNumNodes
    return some d
  else if granted then do
    let newMapSize := d.mapSize + max d.mapSize nodesToAdd + 2
    let newNstart := (newMapSize - newNumNodes) / 2 + if addAtFront then nodesToAdd else 0
    let newMap ← copyTo d.map oldNumNodes d.start.node (List.replicate newMapSize none) newNstart
    deallocateMap d.map d.mapSize
    let d ← { d with map := newMap, mapSize := newMapSize }.setNodes T newNstart oldNumNodes
    return some d
  else .ok none

/-- `_M_reserve_map_at_back`. -/
def reserveMapAtBack (d : Deque α) (nodesToAdd : Nat) (granted : Bool) :
    Except Fault (Option (Deque α)) :=
  if d.mapSize - d.finish.node < nodesToAdd + 1 then d.reallocateMap T nodesToAdd false granted
  else .ok (some d)

/-- `_M_reserve_map_at_front`. -/
def reserveMapAtFront (d : Deque α) (nodesToAdd : Nat) (granted : Bool) :
    Except Fault (Option (Deque α)) :=
  if d.start.node < nodesToAdd then d.reallocateMap T nodesToAdd true granted
  else .ok (some d)

/-- How a call ends that adds an element: it returns, or with `std::bad_alloc`, or with the
exception of the copy constructor. -/
inductive Outcome
  | done
  | badAlloc
  | threw
  deriving DecidableEq, Repr

/-- `_M_push_back_aux` once the node at `p` is allocated: the rest of that line, and the
`try` and `catch` blocks. -/
def pushBackNode (d : Deque α) (p : Nat) (v : α) (copied : Bool) :
    Except Fault (Deque α × Outcome) := do
  let map ← setEntry d.map (d.finish.node + 1) p
  let d := (d.allocateNode p).withMap map
  match ← d.construct T d.finish.cur v copied with
  | some d =>
    let finish ← d.finish.setNode T d.map (d.finish.node + 1)
    return (d.withFinish (finish.withCur finish.first), .done)
  | none =>
    let p ← entry d.map (d.finish.node + 1)
    let d ← d.deallocateNode T p
    return (d, .threw)

/-- `_M_push_back_aux`. -/
def pushBackAux (d : Deque α) (v : α) (env : Env) : Except Fault (Deque α × Outcome) := do
  match ← d.reserveMapAtBack T 1 env.map with
  | none => return (d, .badAlloc)
  | some d =>
    match env.node with
    | none => return (d, .badAlloc)
    | some p => d.pushBackNode T p v env.copy

/-- `push_back`. -/
def pushBack (d : Deque α) (v : α) (env : Env) : Except Fault (Deque α × Outcome) :=
  if d.finish.cur ≠ d.finish.last - T.size then do
    match ← d.construct T d.finish.cur v env.copy with
    | some d => return (d.withFinish (d.finish.withCur (d.finish.cur + T.size)), .done)
    | none => return (d, .threw)
  else d.pushBackAux T v env

/-- `_M_push_front_aux` once the node at `p` is allocated. -/
def pushFrontNode (d : Deque α) (p : Nat) (v : α) (copied : Bool) :
    Except Fault (Deque α × Outcome) := do
  let node ← before d.start.node
  let map ← setEntry d.map node p
  let d := (d.allocateNode p).withMap map
  let start ← d.start.setNode T d.map node
  let d := d.withStart (start.withCur (start.last - T.size))
  match ← d.construct T d.start.cur v copied with
  | some d => return (d, .done)
  | none =>
    let start ← d.start.increment T d.map
    let d := d.withStart start
    let node ← before d.start.node
    let p ← entry d.map node
    let d ← d.deallocateNode T p
    return (d, .threw)

/-- `_M_push_front_aux`. -/
def pushFrontAux (d : Deque α) (v : α) (env : Env) : Except Fault (Deque α × Outcome) := do
  match ← d.reserveMapAtFront T 1 env.map with
  | none => return (d, .badAlloc)
  | some d =>
    match env.node with
    | none => return (d, .badAlloc)
    | some p => d.pushFrontNode T p v env.copy

/-- `push_front`. -/
def pushFront (d : Deque α) (v : α) (env : Env) : Except Fault (Deque α × Outcome) :=
  if d.start.cur ≠ d.start.first then do
    match ← d.construct T (d.start.cur - T.size) v env.copy with
    | some d => return (d.withStart (d.start.withCur (d.start.cur - T.size)), .done)
    | none => return (d, .threw)
  else d.pushFrontAux T v env

/-- `_M_pop_back_aux`. -/
def popBackAux (d : Deque α) : Except Fault (Deque α) := do
  let d ← d.deallocateNode T d.finish.first
  let node ← before d.finish.node
  let finish ← d.finish.setNode T d.map node
  let d := d.withFinish (finish.withCur (finish.last - T.size))
  d.destroy d.finish.cur

/-- `pop_back`. -/
def popBack (d : Deque α) : Except Fault (Deque α) :=
  if d.finish.cur ≠ d.finish.first then
    let d := d.withFinish (d.finish.withCur (d.finish.cur - T.size))
    d.destroy d.finish.cur
  else d.popBackAux T

/-- `_M_pop_front_aux`. -/
def popFrontAux (d : Deque α) : Except Fault (Deque α) := do
  let d ← d.destroy d.start.cur
  let d ← d.deallocateNode T d.start.first
  let start ← d.start.setNode T d.map (d.start.node + 1)
  return d.withStart (start.withCur start.first)

/-- `pop_front`. -/
def popFront (d : Deque α) : Except Fault (Deque α) :=
  if d.start.cur ≠ d.start.last - T.size then do
    let d ← d.destroy d.start.cur
    return d.withStart (d.start.withCur (d.start.cur + T.size))
  else d.popFrontAux T

/-- `front()`: the address of the element. -/
def front (d : Deque α) : Nat := d.start.cur

/-- `back()`. -/
def back (d : Deque α) : Except Fault Nat := do
  let it ← d.finish.decrement T d.map
  return it.cur

/-- `operator[]`. -/
def index (d : Deque α) (n : Nat) : Except Fault Nat := do
  let it ← d.start.advance T d.map n
  return it.cur

/-- `size()`. -/
def size (d : Deque α) : Int := d.finish.distance T d.start

/-- `empty()`. -/
def empty (d : Deque α) : Bool := d.finish.same d.start

/-- `at`; `none` is `std::out_of_range`. -/
def at? (d : Deque α) (n : Nat) : Except Fault (Option Nat) :=
  if d.size T ≤ n then .ok none else do
    let a ← d.index T n
    return some a

/-- `std::_Destroy(first, first + n)`. -/
def destroyRange (d : Deque α) : Nat → Nat → Except Fault (Deque α)
  | _, 0 => .ok d
  | first, n + 1 => do
      let d ← d.destroy first
      d.destroyRange (first + T.size) n

/-- The nodes from `node` on, `n` of them, are emptied. -/
def destroyFull (d : Deque α) : Nat → Nat → Except Fault (Deque α)
  | _, 0 => .ok d
  | node, n + 1 => do
      let p ← entry d.map node
      let d ← d.destroyRange T p T.bufSize
      d.destroyFull (node + 1) n

/-- `_M_destroy_data_aux`. -/
def destroyDataAux (d : Deque α) (first last : Iter) : Except Fault (Deque α) := do
  let d ← d.destroyFull T (first.node + 1) (last.node - (first.node + 1))
  if first.node ≠ last.node then
    let d ← d.destroyRange T first.cur ((first.last - first.cur) / T.size)
    d.destroyRange T last.first ((last.cur - last.first) / T.size)
  else d.destroyRange T first.cur ((last.cur - first.cur) / T.size)

/-- `_M_destroy_nodes(node, node + n)`. -/
def destroyNodes (d : Deque α) : Nat → Nat → Except Fault (Deque α)
  | _, 0 => .ok d
  | node, n + 1 => do
      let p ← entry d.map node
      let d ← d.deallocateNode T p
      d.destroyNodes (node + 1) n

/-- `_M_erase_at_end`. -/
def eraseAtEnd (d : Deque α) (pos : Iter) : Except Fault (Deque α) := do
  let d ← d.destroyDataAux T pos d.finish
  let d ← d.destroyNodes T (pos.node + 1) (d.finish.node + 1 - (pos.node + 1))
  return d.withFinish pos

/-- `clear()`. -/
def clear (d : Deque α) : Except Fault (Deque α) := d.eraseAtEnd T d.start

/-- `~deque()`: the nodes and objects that are left. -/
def dtor (d : Deque α) : Except Fault (List Nat × (Nat → Option α)) := do
  let d ← d.destroyDataAux T d.start d.finish
  let d ← d.destroyNodes T d.start.node (d.finish.node + 1 - d.start.node)
  deallocateMap d.map d.mapSize
  return (d.nodes, d.objs)

end TorchTest.Deque
