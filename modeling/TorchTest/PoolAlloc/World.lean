import TorchTest.Library.Runs
import TorchTest.PoolAlloc.Ledger

/-!
# The pool, its clients and the system

A `World` is the pool with the blocks that clients hold. An `Event` is a call,
with the system's answer should it ask for memory, or one byte written by a
client. `GLIBCXX_FORCE_NEW` is not set, so requests of up to 128 bytes are
served by the pool, and larger ones by the system.

* `SystemOk`: the regions granted to the pool and the live blocks that came from
  the system are not null, 8-aligned, inside the address space and disjoint;
* `ClientOk`: only live blocks are given back, with the type and count they were
  allocated with, and clients write inside live blocks.

`Arena.serve` is the same calls on an arena: an allocator that keeps its lists
and its remainder outside memory.
-/

namespace TorchTest.PoolAlloc

/-- A block that a client holds. -/
structure Block where
  type : ElemType
  count : Nat
  ptr : Nat
  deriving DecidableEq

namespace Block

/-- The bytes that the client asked for. -/
def bytes (b : Block) : Nat := b.count * b.type.size

/-- The block came from the pool. -/
abbrev Pooled (b : Block) : Prop := b.bytes ≤ maxBytes

/-- The bytes that the block occupies: a pooled one is rounded up to a multiple of 8. -/
def span (b : Block) : Interval :=
  ⟨b.ptr, if b.Pooled then (b.bytes + 7) / 8 * 8 else b.bytes⟩

end Block

/-- A call, with the system's answer to it, or a client's write. -/
inductive Event
  | allocate (T : ElemType) (n : Nat) (answer : Option Nat)
  | deallocate (T : ElemType) (ptr n : Nat)
  | write (a : Nat) (v : UInt8)
  deriving DecidableEq

/-- The event is a call, not a client's write. -/
def Event.IsCall : Event → Prop
  | .write _ _ => False
  | _ => True

/-- What a caller sees. -/
inductive Result
  | returned (ptr : Nat)
  | failed (failure : Failure)
  | done
  deriving DecidableEq, Repr

/-- The pointer a call returned. -/
def Result.ptr? : Result → Option Nat
  | .returned ptr => some ptr
  | _ => none

/-- A block, or `std::bad_alloc`. -/
def Result.ofOption : Option Nat → Result
  | some ptr => .returned ptr
  | none => .failed .badAlloc

/-- The pool and the live blocks, newest first. -/
structure World where
  pool : Pool
  live : List Block

namespace World

/-- Static initialization, and no live blocks. -/
def init (m : Machine) : World := { pool := Pool.init m, live := [] }

/-- One event. -/
def step (w : World) : Event → World × Result
  | .allocate T n answer =>
      match w.pool.allocate T n false [answer] with
      | (.ok ptr, pool) =>
          ({ pool, live := if n = 0 then w.live else ⟨T, n, ptr⟩ :: w.live }, .returned ptr)
      | (.error e, pool) => ({ w with pool }, .failed e)
  | .deallocate T ptr n =>
      ({ pool := w.pool.deallocate T ptr n, live := w.live.erase ⟨T, n, ptr⟩ }, .done)
  | .write a v =>
      ({ w with pool := { w.pool with machine := w.pool.machine.writeByte a v } }, .done)

/-- The spans of the live blocks from the pool. -/
def pooled (w : World) : List Interval := (w.live.filter (·.Pooled)).map Block.span

/-- The spans of the live blocks from the system. -/
def direct (w : World) : List Interval := (w.live.filter (¬·.Pooled)).map Block.span

/-- What the system promises, read off the state after the event. -/
def SystemOk (w : World) (e : Event) : Prop :=
  Granted ((w.step e).1.direct ++ (w.step e).1.pool.regions)

/-- What the clients promise. A null pointer may be given back at any time. -/
def ClientOk (w : World) : Event → Prop
  | .allocate _ _ _ => True
  | .deallocate T ptr n => ptr = 0 ∨ ⟨T, n, ptr⟩ ∈ w.live
  | .write a _ => ∃ b ∈ w.live, a ∈ b.span

/-- An event that both sides are entitled to. -/
def Valid (w : World) (e : Event) : Prop := w.SystemOk e ∧ w.ClientOk e

instance (w : World) (e : Event) : Decidable (w.SystemOk e) := inferInstanceAs (Decidable (Granted _))

instance (w : World) : ∀ e, Decidable (w.ClientOk e)
  | .allocate _ _ _ => isTrue True.intro
  | .deallocate T ptr n => inferInstanceAs (Decidable (ptr = 0 ∨ ⟨T, n, ptr⟩ ∈ w.live))
  | .write a _ => inferInstanceAs (Decidable (∃ b ∈ w.live, a ∈ b.span))

instance (w : World) (e : Event) : Decidable (w.Valid e) := inferInstanceAs (Decidable (_ ∧ _))

/-- The state after some valid run from static initialization. -/
def Reachable (w : World) : Prop :=
  ∃ m es, Admissible step Valid (init m) es ∧ after step (init m) es = w

theorem Reachable.after {w : World} {es : List Event} (reachable : w.Reachable)
    (run : Admissible step Valid w es) : (after step w es).Reachable := by
  rcases reachable with ⟨m, before, start, rfl⟩
  exact ⟨m, before ++ es, admissible_append.mpr ⟨start, run⟩, after_append⟩

end World

/-- The same calls on an arena. -/
def Arena.serve (A : Arena) : Event → Arena × Result
  | .allocate T n answer =>
      if n = 0 then (A, .returned 0)
      else if addressSpace ≤ n * T.size then (A, .failed .badAlloc)
      else if maxBytes < n * T.size then (A, .ofOption answer)
      else
        let r := A.allocate (classOf (n * T.size)) answer
        (r.1, .ofOption r.2)
  | .deallocate T ptr n =>
      if n = 0 ∨ ptr = 0 ∨ maxBytes < n * T.size then (A, .done)
      else (A.release (classOf (n * T.size)) ptr, .done)
  | .write _ _ => (A, .done)

/-- A request of up to 128 bytes, on an arena. -/
theorem Arena.serve_small (A : Arena) {T : ElemType} {n : Nat} (positive : n ≠ 0)
    (small : n * T.size ≤ maxBytes) (answer : Option Nat) :
    A.serve (.allocate T n answer) =
      ((A.allocate (classOf (n * T.size)) answer).1,
        .ofOption (A.allocate (classOf (n * T.size)) answer).2) := by
  have fits : n * T.size < addressSpace := small.trans_lt (by decide)
  simp only [serve, if_neg positive, if_neg (Nat.not_le.mpr fits), if_neg (Nat.not_lt.mpr small)]

/-! ## A run through every branch -/

/-- `long`. -/
def ElemType.long : ElemType := { id := 0, size := 8, align := 8, size_pos := by decide }

/-- A pair of them. -/
def ElemType.pair : ElemType := { id := 1, size := 16, align := 8, size_pos := by decide }

/-- A buffer of 128 bytes. -/
def ElemType.buffer : ElemType := { id := 2, size := 128, align := 1, size_pos := by decide }

/-- A refill from a granted region, one from the remainder, a refusal that
throws, one that is served from a larger block, and a detour to the system. -/
def sampleRun : List Event :=
  [.allocate .pair 1 (some 4096), .allocate .buffer 1 none, .write 4420 255,
    .allocate .buffer 1 none, .allocate .buffer 1 none, .allocate .long 3 none,
    .deallocate .buffer 4416 1, .allocate .long 30 (some 65536), .deallocate .pair 4096 1,
    .deallocate .long 65536 30, .allocate .long 2 none]

end TorchTest.PoolAlloc
