import TorchTest.FixedPool.Partition

/-!
# How many chunks a pool asks for

A pool refills only when all of its slots are live, and never gives a chunk back.
So after any run it has asked for as many chunks as its largest number of live
blocks needs (`footprint_of_run`), however the calls were ordered. The abstract
store shows this (`FreeStore.Footprint`), and the invariant carries it over.

A chunk whose length wraps has fewer slots than it should: two of them are needed
for three blocks (`footprint_of_wrapped_chunk`).
-/

namespace TorchTest.FixedPool

variable {ι : Type}

/-- The bytes that a call asked of the system. -/
def Result.request? : Result → Option Nat
  | .returned _ request => request
  | .failed _ request => request
  | .done => none

namespace World

variable [DecidableEq ι]

/-- What the object `i` asked the system for during a run, call by call. -/
def requestsOf (cls : ι → PoolClass) (i : ι) : World ι → List (Event ι) → List Nat
  | _, [] => []
  | w, e :: es =>
      (if e.On i then (w.step cls e).2.request?.toList else []) ++
        requestsOf cls i (w.step cls e).1 es

/-- How many blocks of the object `i` are live. -/
def liveCount (i : ι) (w : World ι) : Nat := (w.liveOf i).length

variable {cls : ι → PoolClass} {s : ι → Nat} {w : World ι} {a : ι → FreeStore Slot} {e : Event ι}
  {es : List (Event ι)} {i : ι}

/-- An allowed call asks for the chunk that it adds. -/
theorem request_step (allowed : w.Allowed cls e) (i : ι) :
    (if e.On i then (w.step cls e).2.request?.toList else []) =
      ((w.added cls e).filter (·.owner = i)).map Chunk.length := by
  cases e with
  | allocate j size answer =>
    by_cases free : w.freeStore j = 0
    · cases answer with
      | none => exact absurd free allowed.granted
      | some base =>
        have serves := allowed.suits.1 free
        have fresh := allowed.system free
        rw [SizeT.mul_eq serves.2.2] at fresh
        rw [step_allocate_of_granted free serves fresh.1 fresh.2.1, added, if_pos free]
        by_cases on : j = i
        · simp [Event.On, on, Result.request?]
        · simp [Event.On, on]
    · have kept : w.added cls (.allocate j size answer) = [] := by
        cases answer with
        | none => rfl
        | some base => exact if_neg free
      rw [step_allocate_of_ne_zero free, kept]
      simp [Result.request?]
  | deallocate j p => simp [step_deallocate, Result.request?, added]
  | write p v => simp [Event.On, added]

/-- The chunks of an object are those that it asked for. -/
theorem length_chunksOf_after (run : Admissible (step cls) (Allowed cls) w es) (i : ι) :
    ((after (step cls) w es).chunksOf i).map Chunk.length =
      (w.chunksOf i).map Chunk.length ++ requestsOf cls i w es := by
  induction es generalizing w with
  | nil => exact (List.append_nil _).symm
  | cons e es ih =>
    rw [after_cons, ih run.2, requestsOf, request_step run.1, chunksOf, chunks_step run.1,
      List.filter_append, List.map_append, List.append_assoc, ← chunksOf]

/-- A valid event keeps the invariant and the footprint of every store. -/
theorem FixedInv.footprint_step (fixed : w.FixedInv cls s a) (serves : ∀ i, (cls i).Serves (s i))
    (valid : w.Valid cls s e) {peak : Nat} (holds : (a i).Footprint (cls i).chunk peak) :
    ∃ a', (w.step cls e).1.FixedInv cls s a' ∧
      (a' i).Footprint (cls i).chunk (max peak ((w.step cls e).1.liveCount i)) := by
  rcases fixed.inv.step (allowed_of_valid fixed serves valid) with ⟨a', inv', entries⟩
  rcases fixed.step serves valid with ⟨_, fixed'⟩
  have count : (w.step cls e).1.liveCount i = (a' i).live.length := by
    have perm := (inv'.live i).length_eq
    rwa [List.length_map, List.length_map] at perm
  refine ⟨a', ⟨inv', fixed'.strides, fixed'.sizes⟩, ?_⟩
  rw [count]
  rcases entries i with ⟨_, kept⟩ | ⟨c, _, moved⟩
  · rw [kept, max_eq_left holds.live_le]
    exact holds
  · rw [moved]
    exact holds.call (fixed.inv.sound i) (length_chunkSlots _) (cls i).chunk_pos c

end World

variable [DecidableEq ι]

open World in
/-- After every run of any number of pools, each used with its own size whose chunk
length does not wrap, an object has asked for as many chunks of `CHUNK * size` bytes
as the largest number of its blocks that were live at once needs. -/
theorem footprint_of_run {cls : ι → PoolClass} {s : ι → Nat}
    (own : ∀ i, (cls i).stride (s i) = s i) (large : ∀ i, pointerSize ≤ s i)
    (nowrap : ∀ i, (cls i).chunk * s i < addressSpace) (m : Machine) {es : List (Event ι)}
    (run : Admissible (step cls) (Valid cls s) (init m) es) (i : ι) :
    requestsOf cls i (init m) es =
      List.replicate (peak (step cls) (liveCount i) (init m) es ⌈/⌉ (cls i).chunk)
        ((cls i).chunk * s i) := by
  have serves : ∀ i, (cls i).Serves (s i) := fun i =>
    PoolClass.serves_of_fixed (own i) (large i) (nowrap i)
  obtain ⟨a, fixed, holds⟩ := run.peak_invariant
    (I := fun w p => ∃ a, w.FixedInv cls s a ∧ (a i).Footprint (cls i).chunk p)
    ⟨_, fixedInv_init cls s m, FreeStore.footprint_empty (cls i).chunk_pos⟩
    fun w e p ⟨a, fixed, holds⟩ valid => fixed.footprint_step serves valid holds
  have requests := length_chunksOf_after (allowed_of_run serves run) i
  rw [show ((init m : World ι).chunksOf i).map Chunk.length = [] from rfl, List.nil_append]
    at requests
  rw [← requests, List.eq_replicate_iff, List.length_map, ← fixed.inv.count,
    holds.chunks_eq (cls i).chunk_pos]
  refine ⟨rfl, fun length member => ?_⟩
  rcases List.mem_map.mp member with ⟨c, own, rfl⟩
  rcases List.mem_filter.mp own with ⟨known, owner⟩
  rw [(fixed.inv.wf c known).length_eq, fixed.strides c known, of_decide_eq_true owner]

/-- A `MyAllocator` for blocks of 40 bytes, and the pool of `Screen`. -/
def mixedPools (screen : Bool) : PoolClass := if screen then .demoScreenV2 else .testMyAllocator

/-- Their block sizes. -/
def mixedSize (screen : Bool) : Nat := if screen then 8 else 40

open World in
/-- Five blocks at once need two chunks of four, and one `Screen` at a time a single
chunk. -/
theorem footprint_of_run_mixed :
    let es : List (Event Bool) :=
      [.allocate false 40 (some 4096), .allocate true 8 (some 8192), .deallocate true 8192,
        .allocate false 40 none, .allocate false 40 none, .deallocate false 4096,
        .allocate true 8 none, .write 4140 7, .allocate false 40 none, .allocate false 40 none,
        .allocate false 40 (some 16384)]
    requestsOf mixedPools false (init Machine.zero) es = [160, 160] ∧
      requestsOf mixedPools true (init Machine.zero) es = [192] := by
  intro es
  have run : Admissible (step mixedPools) (Valid mixedPools mixedSize) (init Machine.zero) es := by
    decide +kernel
  have requests := footprint_of_run (s := mixedSize) (by decide) (by decide) (by decide)
    Machine.zero run
  constructor
  · rw [requests false]
    decide +kernel
  · rw [requests true]
    decide +kernel

open World in
/-- With `CHUNK = 4` and blocks of `2 ^ 63` bytes a chunk has 0 bytes, and the loop
comes back to its first slot: the list has two slots, and a third block needs a second
chunk. -/
theorem footprint_of_wrapped_chunk :
    let cls := fun _ : Unit => PoolClass.testMyAllocator
    let s := fun _ : Unit => 2 ^ 63
    let es : List (Event Unit) :=
      [.allocate () (2 ^ 63) (some 4096), .allocate () (2 ^ 63) none,
        .allocate () (2 ^ 63) (some 8192)]
    (∀ i, pointerSize ≤ s i) ∧ Admissible (step cls) (Valid cls s) (init Machine.zero) es ∧
      (requestsOf cls () (init Machine.zero) es).length ≠
        peak (step cls) (liveCount ()) (init Machine.zero) es ⌈/⌉ (cls ()).chunk := by
  decide +kernel

end TorchTest.FixedPool
