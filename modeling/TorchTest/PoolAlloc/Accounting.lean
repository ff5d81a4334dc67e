import TorchTest.PoolAlloc.Refinement

/-!
# Exact accounting

`Accounted w lists`: `lists` are the free lists in memory, and every byte of the
regions obtained lies in exactly one live block, in exactly one node of exactly
one list, or in the remainder. `accounted_of_run` says so after every valid run,
so no byte is handed out twice and none is lost.
-/

namespace TorchTest.PoolAlloc

/-- `[_S_start_free, _S_end_free)`. -/
def Pool.remainder (s : Pool) : Interval := ⟨s.startFree, s.endFree - s.startFree⟩

/-- The books of the pool, in terms of its static members and of memory. -/
structure World.Accounted (w : World) (lists : Nat → List Nat) : Prop where
  /-- The lists are those of the pool: finite and null-terminated, -/
  chain : ∀ i < freeListSize, Chain w.pool.machine.loadPtr (w.pool.freeList i) (lists i)
  /-- and acyclic. -/
  nodup : ∀ i < freeListSize, (lists i).Nodup
  /-- The remainder is an interval. -/
  ordered : w.pool.startFree ≤ w.pool.endFree
  /-- The regions do not overlap. -/
  once : ∀ x, cover w.pool.regions x ≤ 1
  /-- An address is in as many blocks, nodes and remainders as regions. -/
  partitioned : ∀ x, cover w.pooled x +
      ∑ i ∈ Finset.range freeListSize, cover ((lists i).map (⟨·, 8 * (i + 1)⟩)) x +
      w.pool.remainder.count x = cover w.pool.regions x
  /-- `_S_heap_size` is the length of the regions. -/
  total : w.pool.heapSize = totalLength w.pool.regions

/-- The remainder is the arena's. -/
theorem Sim.remainder_eq {s : Pool} {A : Arena} (sim : Sim s A) : s.remainder = A.rem := by
  rw [Pool.remainder, sim.start, sim.stop, Interval.stop, Nat.add_sub_cancel_left]

namespace World

/-- What the pool simulates is accounted for. -/
theorem Inv.accounted {w : World} {A : Arena} (inv : w.Inv A) : w.Accounted A.lists where
  chain := inv.sim.chains
  nodup i small := (inv.sim.chains i small).nodup
  ordered := by
    rw [inv.sim.start, inv.sim.stop]
    exact Nat.le_add_right ..
  once := inv.ledger.granted.once
  partitioned x := by
    rw [inv.sim.remainder_eq]
    exact inv.ledger.balanced x
  total := inv.sim.heap.trans inv.ledger.heap

/-- After every valid run, whatever the system granted or refused, every byte of
the regions obtained is accounted for. -/
theorem accounted_of_run (m : Machine) {es : List Event}
    (run : Admissible step Valid (init m) es) :
    ∃ lists, (after step (init m) es).Accounted lists :=
  ⟨_, (run_refines run (inv_init m)).1.accounted⟩

/-- The sample run is valid, so it is accounted for. -/
theorem accounted_of_run_sample :
    Admissible step Valid (init Machine.zero) sampleRun ∧
      ∃ lists, (after step (init Machine.zero) sampleRun).Accounted lists :=
  have run : Admissible step Valid (init Machine.zero) sampleRun := by decide +kernel
  ⟨run, accounted_of_run Machine.zero run⟩

end World

end TorchTest.PoolAlloc
