import TorchTest.Machine

/-!
# The fixed-size pools

The four classes that hand out blocks of one size from a list of free blocks,
linked through the blocks themselves:

* `Screen` with a separate `next_` field (`c++/demo/allocator_v1.cpp`, and
  `Screen` in `c++/test_allocator.cpp`): 16-byte slots, link at offset 8;
* `Screen` with `next_` and `i_` in one union (`c++/demo/allocator_v2.cpp`, and
  `ScreenV2` in the test): 8-byte slots, link at offset 0;
* `allocator` (`c++/demo/allocator_v3.cpp`), which asks `malloc` for its chunks;
* `MyAllocator` (`c++/test_allocator.cpp`), which asks `new char[]`.

A call gets the value of `free_store_`, the machine and the answer the system
gives if the call asks for a chunk: `some base`, or `none` when it refuses. The
chunk constants (24 and 4, 5, 4 in the source) are parameters.
-/

namespace TorchTest.FixedPool

/-- Why a call does not return: `std::bad_alloc`, or a loop that the model cut
off before the source left it. -/
inductive Failure
  | badAlloc
  | outOfFuel
  deriving DecidableEq, Repr

/-- What a call leaves behind: the pointer it returns or its failure, the new
`free_store_`, the machine, and the bytes it asked of the system, if it did. -/
structure Reply where
  result : Except Failure Nat
  freeStore : Nat
  machine : Machine
  request : Option Nat

/-- `malloc(chunk)`: null when the system refuses. -/
def malloc (answer : Option Nat) : Except Failure Nat := .ok (answer.getD 0)

/-- `new char[chunk]`: throws when the system refuses. -/
def newChar (answer : Option Nat) : Except Failure Nat :=
  match answer with
  | some p => .ok p
  | none => .error .badAlloc

/-- `p = free_store_; free_store_ = free_store_->next_; return p;` -/
def popHead (link freeStore : Nat) (m : Machine) (request : Option Nat) : Reply :=
  { result := .ok freeStore, freeStore := m.loadPtr (freeStore + link), machine := m, request }

/-- `ptr->next_ = free_store_; free_store_ = ptr;` -/
def pushHead (link ptr freeStore : Nat) (m : Machine) : Nat × Machine :=
  (ptr, m.storePtr (ptr + link) freeStore)

/-! ## `allocator` and `MyAllocator` -/

/-- The threading loop of `allocator` and `MyAllocator`, `n` turns before its end:
`for(; i < CHUNK - 1; ++i){ p->next = (char*)p + size; p = p->next; }`
and then `p->next = nullptr`. The next `p` is read back from memory. -/
def threadCounted (size : Nat) : Nat → Nat → Machine → Machine
  | 0, p, m => m.storePtr p 0
  | n + 1, p, m =>
      let m := m.storePtr p (SizeT.add p size)
      threadCounted size n (m.loadPtr p) m

/-- `allocate` of `allocator` and `MyAllocator`, which differ in how they ask
for a chunk of `CHUNK * size` bytes. -/
def allocateSized (chunk : Nat) (acquire : Except Failure Nat) (freeStore : Nat) (m : Machine)
    (size : Nat) : Reply :=
  if freeStore = 0 then
    match acquire with
    | .error e =>
        { result := .error e, freeStore, machine := m, request := some (SizeT.mul chunk size) }
    | .ok p =>
        popHead 0 p (threadCounted size (chunk - 1) p m) (some (SizeT.mul chunk size))
  else popHead 0 freeStore m none

/-- `allocator::allocate`. -/
def Allocator.allocate (chunkSize freeStore : Nat) (m : Machine) (size : Nat)
    (answer : Option Nat) : Reply :=
  allocateSized chunkSize (malloc answer) freeStore m size

/-- `allocator::deallocate`. -/
def Allocator.deallocate (ptr freeStore : Nat) (m : Machine) : Nat × Machine :=
  pushHead 0 ptr freeStore m

/-- `MyAllocator::allocate`. -/
def MyAllocator.allocate (chunk freeStore : Nat) (m : Machine) (size : Nat)
    (answer : Option Nat) : Reply :=
  allocateSized chunk (newChar answer) freeStore m size

/-- `MyAllocator::deallocate`. -/
def MyAllocator.deallocate (ptr freeStore : Nat) (m : Machine) : Nat × Machine :=
  pushHead 0 ptr freeStore m

/-! ## `Screen` -/

/-- The threading loop of `Screen::operator new`:
`for(; p != &free_store_[screen_chunk_ - 1]; ++p) p->next_ = p + 1;`
and then `p->next_ = nullptr`. The loop tests pointers for equality, so the
model bounds its turns by a fuel. -/
def threadTo (sizeofScreen link last : Nat) : Nat → Nat → Machine → Option Machine
  | 0, _, _ => none
  | fuel + 1, p, m =>
      if p = last then some (m.storePtr (p + link) 0)
      else threadTo sizeofScreen link last fuel (SizeT.add p sizeofScreen)
        (m.storePtr (p + link) (SizeT.add p sizeofScreen))

/-- `Screen::operator new` for an object of `sizeofScreen` bytes with `next_` at
offset `link`. The chunk length follows the requested size, the stride of the
loop follows `sizeof(Screen)`. -/
def screenNew (sizeofScreen link screenChunk freeStore : Nat) (m : Machine) (size : Nat)
    (answer : Option Nat) : Reply :=
  if freeStore = 0 then
    let chunk := SizeT.mul screenChunk size
    match newChar answer with
    | .error e => { result := .error e, freeStore, machine := m, request := some chunk }
    | .ok p =>
        let last := SizeT.add p (SizeT.mul (screenChunk - 1) sizeofScreen)
        match threadTo sizeofScreen link last screenChunk p m with
        | none => { result := .error .outOfFuel, freeStore := p, machine := m, request := some chunk }
        | some m => popHead link p m (some chunk)
  else popHead link freeStore m none

/-- `Screen::operator new` of the first version: `i_`, padding, `next_`. -/
def ScreenV1.operatorNew (screenChunk freeStore : Nat) (m : Machine) (size : Nat)
    (answer : Option Nat) : Reply :=
  screenNew 16 8 screenChunk freeStore m size answer

/-- `Screen::operator delete` of the first version. -/
def ScreenV1.operatorDelete (ptr freeStore : Nat) (m : Machine) : Nat × Machine :=
  pushHead 8 ptr freeStore m

/-- `Screen::operator new` of the second version: one union of `i_` and `next_`. -/
def ScreenV2.operatorNew (screenChunk freeStore : Nat) (m : Machine) (size : Nat)
    (answer : Option Nat) : Reply :=
  screenNew 8 0 screenChunk freeStore m size answer

/-- `Screen::operator delete` of the second version. -/
def ScreenV2.operatorDelete (ptr freeStore : Nat) (m : Machine) : Nat × Machine :=
  pushHead 0 ptr freeStore m

/-! ## The four classes together -/

/-- Which of the four classes a pool object is of. -/
inductive Kind
  | allocator
  | myAllocator
  | screenV1
  | screenV2
  deriving DecidableEq, Repr

namespace Kind

/-- Where the link of a free block lies in it. -/
def link : Kind → Nat
  | .allocator | .myAllocator | .screenV2 => 0
  | .screenV1 => 8

/-- The distance of two slots of a chunk that a call with this size threads. -/
def stride (size : Nat) : Kind → Nat
  | .allocator | .myAllocator => size
  | .screenV1 => 16
  | .screenV2 => 8

end Kind

/-- A pool class with its chunk constant, a positive `int`. -/
structure PoolClass where
  kind : Kind
  chunk : Nat
  chunk_pos : 0 < chunk
  chunk_int : chunk < 2 ^ 31

namespace PoolClass

/-- `allocator` of the demo, as used by `Foo` and `Goo`. -/
def demoAllocator : PoolClass := ⟨.allocator, 5, by decide, by decide⟩

/-- `MyAllocator` of the test. -/
def testMyAllocator : PoolClass := ⟨.myAllocator, 4, by decide, by decide⟩

/-- `Screen` of the first demo. -/
def demoScreenV1 : PoolClass := ⟨.screenV1, 24, by decide, by decide⟩

/-- `Screen` of the second demo. -/
def demoScreenV2 : PoolClass := ⟨.screenV2, 24, by decide, by decide⟩

/-- The allocation function of the class. -/
def allocate (K : PoolClass) (freeStore : Nat) (m : Machine) (size : Nat)
    (answer : Option Nat) : Reply :=
  match K.kind with
  | .allocator => Allocator.allocate K.chunk freeStore m size answer
  | .myAllocator => MyAllocator.allocate K.chunk freeStore m size answer
  | .screenV1 => ScreenV1.operatorNew K.chunk freeStore m size answer
  | .screenV2 => ScreenV2.operatorNew K.chunk freeStore m size answer

/-- The deallocation function of the class; it ignores the size it is given. -/
def deallocate (K : PoolClass) (ptr freeStore : Nat) (m : Machine) : Nat × Machine :=
  match K.kind with
  | .allocator => Allocator.deallocate ptr freeStore m
  | .myAllocator => MyAllocator.deallocate ptr freeStore m
  | .screenV1 => ScreenV1.operatorDelete ptr freeStore m
  | .screenV2 => ScreenV2.operatorDelete ptr freeStore m

/-- The distance of two slots of a chunk threaded by a call with this size. -/
abbrev stride (K : PoolClass) (size : Nat) : Nat := K.kind.stride size

/-- Where the link of a free block lies in it. -/
abbrev link (K : PoolClass) : Nat := K.kind.link

end PoolClass

end TorchTest.FixedPool
