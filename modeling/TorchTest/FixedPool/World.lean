import TorchTest.FixedPool.Source
import TorchTest.Library.FreeStore
import Mathlib.Logic.Function.Basic

/-!
# Pool objects, their clients and the system

A `World ι` holds one pool object for every index in `ι`, all in one memory,
together with what the system and the clients know: the chunks granted so far
and the live blocks. An `Event` is one call, with the system's answer should
the call ask for a chunk, or one byte written by a client.

What the two sides promise is stated event by event:

* `SystemOk`: a granted chunk is not null, ends inside the address space and
  is disjoint from every earlier one; `Granted`: requests are not refused;
* `ClientOk`: only live blocks are deallocated, to the object they came from,
  and clients write inside live blocks.
-/

namespace TorchTest.FixedPool

/-- A chunk that a pool object obtained and threaded. -/
structure Chunk (ι : Type) where
  owner : ι
  base : Nat
  length : Nat
  stride : Nat
  deriving DecidableEq

/-- The memory the system granted. -/
def Chunk.region {ι : Type} (c : Chunk ι) : Interval := ⟨c.base, c.length⟩

/-- A block that a client holds: `size` bytes at `ptr`. -/
structure Block (ι : Type) where
  owner : ι
  ptr : Nat
  size : Nat
  deriving DecidableEq

/-- The bytes that the client may use. -/
def Block.span {ι : Type} (b : Block ι) : Interval := ⟨b.ptr, b.size⟩

/-- One memory, the `free_store_` of every object, the chunks granted (oldest
first) and the live blocks. -/
structure World (ι : Type) where
  machine : Machine
  freeStore : ι → Nat
  chunks : List (Chunk ι)
  live : List (Block ι)

/-- A call on the object `i`, or a client's write. -/
inductive Event (ι : Type)
  | allocate (i : ι) (size : Nat) (answer : Option Nat)
  | deallocate (i : ι) (ptr : Nat)
  | write (a : Nat) (v : UInt8)
  deriving DecidableEq

/-- The event is a call of a pool, not a client's write. -/
def Event.IsCall {ι : Type} : Event ι → Prop
  | .write _ _ => False
  | _ => True

/-- The event is a call on the object `i`. -/
def Event.On {ι : Type} (i : ι) : Event ι → Prop
  | .allocate j _ _ => j = i
  | .deallocate j _ => j = i
  | .write _ _ => False

instance {ι : Type} [DecidableEq ι] (i : ι) : ∀ e : Event ι, Decidable (e.On i)
  | .allocate j _ _ => inferInstanceAs (Decidable (j = i))
  | .deallocate j _ => inferInstanceAs (Decidable (j = i))
  | .write _ _ => isFalse id

/-- What a caller sees, and the bytes asked of the system during the call. -/
inductive Result
  | returned (ptr : Nat) (request : Option Nat)
  | failed (failure : Failure) (request : Option Nat)
  | done
  deriving DecidableEq, Repr

/-- The pointer a call returned. -/
def Result.ptr? : Result → Option Nat
  | .returned ptr _ => some ptr
  | _ => none

namespace World

variable {ι : Type} [DecidableEq ι]

/-- Empty pools over any memory. -/
def init (m : Machine) : World ι :=
  { machine := m, freeStore := fun _ => 0, chunks := [], live := [] }

/-- The chunks of one object, oldest first. -/
def chunksOf (w : World ι) (i : ι) : List (Chunk ι) := w.chunks.filter (·.owner = i)

/-- The live blocks of one object. -/
def liveOf (w : World ι) (i : ι) : List (Block ι) := w.live.filter (·.owner = i)

/-- The chunks after a call that asked for `request` bytes, if it did. -/
def grant (chunks : List (Chunk ι)) (i : ι) (stride : Nat) (request answer : Option Nat) :
    List (Chunk ι) :=
  match request, answer with
  | some length, some base => chunks ++ [{ owner := i, base, length, stride }]
  | _, _ => chunks

/-- One event. -/
def step (cls : ι → PoolClass) (w : World ι) : Event ι → World ι × Result
  | .allocate i size answer =>
      let r := (cls i).allocate (w.freeStore i) w.machine size answer
      let w : World ι :=
        { w with
          machine := r.machine
          freeStore := Function.update w.freeStore i r.freeStore
          chunks := grant w.chunks i ((cls i).stride size) r.request answer }
      match r.result with
      | .ok ptr =>
          if ptr = 0 then (w, .returned 0 r.request)
          else ({ w with live := { owner := i, ptr, size } :: w.live }, .returned ptr r.request)
      | .error e => (w, .failed e r.request)
  | .deallocate i ptr =>
      let (freeStore, machine) := (cls i).deallocate ptr (w.freeStore i) w.machine
      ({ w with
          machine
          freeStore := Function.update w.freeStore i freeStore
          live := w.live.eraseP fun b => b.owner = i ∧ b.ptr = ptr }, .done)
  | .write a v => ({ w with machine := w.machine.writeByte a v }, .done)

/-- A region the system may grant: not null, not past the last address, and
disjoint from every chunk granted before. -/
def Fresh (w : World ι) (base length : Nat) : Prop :=
  0 < base ∧ base + length < addressSpace ∧
    ∀ c ∈ w.chunks, Interval.Apart ⟨base, length⟩ c.region

instance (w : World ι) (base length : Nat) : Decidable (w.Fresh base length) :=
  inferInstanceAs (Decidable (_ ∧ _ ∧ _))

/-- What the system promises: a granted chunk is fresh. -/
def SystemOk (cls : ι → PoolClass) (w : World ι) : Event ι → Prop
  | .allocate i size (some base) =>
      w.freeStore i = 0 → w.Fresh base (SizeT.mul (cls i).chunk size)
  | _ => True

/-- The system does not refuse this call. -/
def Granted (w : World ι) : Event ι → Prop
  | .allocate i _ none => w.freeStore i ≠ 0
  | _ => True

/-- What the clients promise: they give back live blocks only, to the object
these came from, and write inside live blocks only. -/
def ClientOk (w : World ι) : Event ι → Prop
  | .allocate _ _ _ => True
  | .deallocate i ptr => ∃ b ∈ w.live, b.owner = i ∧ b.ptr = ptr
  | .write a _ => ∃ b ∈ w.live, a ∈ b.span

instance (cls : ι → PoolClass) (w : World ι) : ∀ e, Decidable (w.SystemOk cls e)
  | .allocate i size (some base) =>
      inferInstanceAs (Decidable (w.freeStore i = 0 → w.Fresh base (SizeT.mul (cls i).chunk size)))
  | .allocate _ _ none => isTrue True.intro
  | .deallocate _ _ => isTrue True.intro
  | .write _ _ => isTrue True.intro

instance (w : World ι) : ∀ e, Decidable (w.Granted e)
  | .allocate i _ none => inferInstanceAs (Decidable (w.freeStore i ≠ 0))
  | .allocate _ _ (some _) => isTrue True.intro
  | .deallocate _ _ => isTrue True.intro
  | .write _ _ => isTrue True.intro

instance (w : World ι) : ∀ e, Decidable (w.ClientOk e)
  | .allocate _ _ _ => isTrue True.intro
  | .deallocate i ptr => inferInstanceAs (Decidable (∃ b ∈ w.live, b.owner = i ∧ b.ptr = ptr))
  | .write a _ => inferInstanceAs (Decidable (∃ b ∈ w.live, a ∈ b.span))

end World

end TorchTest.FixedPool
