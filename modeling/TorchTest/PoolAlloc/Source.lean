import Mathlib.Logic.Function.Basic
import TorchTest.Machine

/-!
# `__pool_alloc`

The segregated pool of `stl/include/ext/pool_allocator.h` and
`stl/src/pool_allocator.cc`: sixteen lists of free blocks of 8 to 128 bytes,
linked through the blocks themselves, and a remainder `[_S_start_free,
_S_end_free)` of the last region that the system granted.

A call gets the answers of `::operator new`, one per request: `some base`, or
`none` for `std::bad_alloc`. `requests` records the requests of
`_M_allocate_chunk` with their answers, newest first. Loops and recursion of the
source run on fuel; the mutex and the logging are left out.
-/

namespace TorchTest.PoolAlloc

/-- `_S_align`. -/
abbrev align : Nat := 8

/-- `_S_max_bytes`. -/
abbrev maxBytes : Nat := 128

/-- `_S_free_list_size`. -/
abbrev freeListSize : Nat := maxBytes / align

/-- An element type `_Tp`; different types may have one size. -/
structure ElemType where
  id : Nat
  size : Nat
  align : Nat
  size_pos : 0 < size
  deriving DecidableEq

/-- Why a call does not return: `std::bad_alloc`, or a loop or a row of answers
that the model cut off before the source left it. -/
inductive Failure
  | badAlloc
  | outOfFuel
  | outOfAnswers
  deriving DecidableEq, Repr

/-- The static members of `__pool_alloc_base` and `__pool_alloc<_Tp>`, with the
memory that the lists run through. -/
structure Pool where
  machine : Machine
  freeList : Nat → Nat
  startFree : Nat
  endFree : Nat
  heapSize : Nat
  forceNew : ElemType → Int
  requests : List (Nat × Option Nat)

namespace Pool

/-- Static initialization, over any memory. -/
def init (m : Machine) : Pool :=
  { machine := m, freeList := fun _ => 0, startFree := 0, endFree := 0, heapSize := 0,
    forceNew := fun _ => 0, requests := [] }

/-- The regions that `_M_allocate_chunk` obtained, newest first. -/
def regions (s : Pool) : List Interval :=
  s.requests.filterMap fun r => r.2.map fun base => ⟨base, r.1⟩

end Pool

/-- The index of the list that `_M_get_free_list` returns. -/
def getFreeList (bytes : Nat) : Nat :=
  SizeT.sub (SizeT.sub (SizeT.add bytes align) 1 / align) 1

/-- `_M_round_up`. -/
def roundUp (bytes : Nat) : Nat :=
  SizeT.sub (SizeT.add bytes align) 1 &&& (addressSpace - 1 ^^^ (align - 1))

namespace Pool

/-- Store the head of list `i` as the link of `p`, and make `p` the head. -/
def push (s : Pool) (i p : Nat) : Pool :=
  { s with
    machine := s.machine.storePtr p (s.freeList i)
    freeList := Function.update s.freeList i p }

/-- Make the link of `p`, the head of list `i`, the new head. -/
def pop (s : Pool) (i p : Nat) : Pool :=
  { s with freeList := Function.update s.freeList i (s.machine.loadPtr p) }

/-- File the left-over piece of the remainder under its length. -/
def setAside (s : Pool) : Pool :=
  if 0 < SizeT.sub s.endFree s.startFree then
    s.push (getFreeList (SizeT.sub s.endFree s.startFree)) s.startFree
  else s

/-- The search of `_M_allocate_chunk` after a refusal, from `i` bytes on: the
first block found becomes the remainder. `some none` is the end of the loop. -/
def reclaim (s : Pool) : Nat → Nat → Option (Option Pool)
  | 0, _ => none
  | turns + 1, i =>
      if i ≤ maxBytes then
        let p := s.freeList (getFreeList i)
        if p ≠ 0 then
          some (some { s.pop (getFreeList i) p with startFree := p, endFree := SizeT.add p i })
        else s.reclaim turns (SizeT.add i align)
      else some none

/-- `_M_allocate_chunk(__n, __nobjs)`: the chunk and the number of objects in it. -/
def allocateChunk (n nobjs : Nat) :
    Nat → List (Option Nat) → Pool → Except Failure (Nat × Nat) × Pool
  | 0, _, s => (.error .outOfFuel, s)
  | fuel + 1, answers, s =>
      let totalBytes := SizeT.mul n nobjs
      let bytesLeft := SizeT.sub s.endFree s.startFree
      if totalBytes ≤ bytesLeft then
        (.ok (s.startFree, nobjs), { s with startFree := SizeT.add s.startFree totalBytes })
      else if n ≤ bytesLeft then
        let nobjs := bytesLeft / n
        let totalBytes := SizeT.mul n nobjs
        (.ok (s.startFree, nobjs), { s with startFree := SizeT.add s.startFree totalBytes })
      else
        let s := s.setAside
        let bytesToGet := SizeT.add (SizeT.mul 2 totalBytes) (roundUp (s.heapSize >>> 4))
        match answers with
        | [] => (.error .outOfAnswers, s)
        | some base :: answers =>
            allocateChunk n nobjs fuel answers
              { s with
                startFree := base
                endFree := SizeT.add base bytesToGet
                heapSize := SizeT.add s.heapSize bytesToGet
                requests := (bytesToGet, some base) :: s.requests }
        | none :: answers =>
            let s := { s with requests := (bytesToGet, none) :: s.requests }
            match s.reclaim (freeListSize + 1) n with
            | none => (.error .outOfFuel, s)
            | some (some s) => allocateChunk n nobjs fuel answers s
            | some none => (.error .badAlloc, { s with startFree := 0, endFree := 0 })

/-- The loop of `_M_refill`, which is left in turn `nobjs - 1` only. -/
def linkObjects (n nobjs : Nat) : Nat → Nat → Nat → Machine → Option Machine
  | 0, _, _, _ => none
  | fuel + 1, i, currentObj, m =>
      let nextObj := SizeT.add currentObj n
      if nobjs - 1 = i then some (m.storePtr currentObj 0)
      else linkObjects n nobjs fuel (i + 1) nextObj (m.storePtr currentObj nextObj)

/-- `_M_refill(__n)`. -/
def refill (n : Nat) (answers : List (Option Nat)) (s : Pool) : Except Failure Nat × Pool :=
  match allocateChunk n 20 3 answers s with
  | (.error e, s) => (.error e, s)
  | (.ok (chunk, nobjs), s) =>
      if nobjs = 1 then (.ok chunk, s)
      else
        let nextObj := SizeT.add chunk n
        let s := { s with freeList := Function.update s.freeList (getFreeList n) nextObj }
        match linkObjects n nobjs nobjs 1 nextObj s.machine with
        | none => (.error .outOfFuel, s)
        | some m => (.ok chunk, { s with machine := m })

/-- `__pool_alloc<_Tp>::max_size`. -/
def maxSize (T : ElemType) : Nat := (addressSpace - 1) / T.size

/-- `__pool_alloc<_Tp>::allocate(__n)`; `getenv` is whether `GLIBCXX_FORCE_NEW`
is set. A call on the direct path takes its answer itself. -/
def allocate (T : ElemType) (n : Nat) (getenv : Bool) (answers : List (Option Nat)) (s : Pool) :
    Except Failure Nat × Pool :=
  if n = 0 then (.ok 0, s)
  else if maxSize T < n then (.error .badAlloc, s)
  else
    let s :=
      if s.forceNew T = 0 then
        { s with forceNew := Function.update s.forceNew T (if getenv then 1 else -1) }
      else s
    let bytes := SizeT.mul n T.size
    if maxBytes < bytes ∨ 0 < s.forceNew T then
      match answers with
      | [] => (.error .outOfAnswers, s)
      | some p :: _ => (.ok p, s)
      | none :: _ => (.error .badAlloc, s)
    else
      let result := s.freeList (getFreeList bytes)
      let r :=
        if result = 0 then s.refill (roundUp bytes) answers
        else (.ok result, s.pop (getFreeList bytes) result)
      match r with
      | (.ok ret, s) => if ret = 0 then (.error .badAlloc, s) else (.ok ret, s)
      | (.error e, s) => (.error e, s)

/-- `__pool_alloc<_Tp>::deallocate(__p, __n)`. -/
def deallocate (T : ElemType) (p n : Nat) (s : Pool) : Pool :=
  if n ≠ 0 ∧ p ≠ 0 then
    let bytes := SizeT.mul n T.size
    if maxBytes < bytes ∨ 0 < s.forceNew T then s
    else s.push (getFreeList bytes) p
  else s

end Pool

end TorchTest.PoolAlloc
