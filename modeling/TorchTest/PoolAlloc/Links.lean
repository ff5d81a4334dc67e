import TorchTest.PoolAlloc.Refinement

/-!
# Links inside free blocks

The pool keeps its lists in the bytes that it lends to clients. `faithful_of_run`:
nobody can tell. In every valid run, whatever the clients write into their
blocks, the pool answers like an allocator that keeps its lists elsewhere, and
no call changes a byte of a live block but the one it takes back.
-/

namespace TorchTest.PoolAlloc.World

/-- The pool in memory answers as the arena does, and leaves live blocks alone. -/
theorem faithful_of_run (m : Machine) (es : List Event)
    (run : Admissible step Valid (init m) es) :
    outputs step (init m) es = outputs Arena.serve Arena.init es ∧
      ∀ e, (after step (init m) es).Valid e → e.IsCall →
        ∀ b ∈ (after step (init m) es).live, e ≠ .deallocate b.type b.ptr b.count →
          Machine.AgreeOn b.span (after step (init m) es).pool.machine
            ((after step (init m) es).step e).1.pool.machine := by
  obtain ⟨inv, same⟩ := run_refines run (inv_init m)
  exact ⟨same, fun e valid call b live kept => inv.step_frame valid call live kept⟩

/-- What the sample run returns: 4672 is a piece of what was left over before the refusal. -/
example : outputs step (init Machine.zero) sampleRun =
    [.returned 4096, .returned 4416, .done, .returned 4544, .failed .badAlloc, .returned 4672,
      .done, .returned 65536, .done, .done, .returned 4096] := by
  decide +kernel

/-- The sample run, and a block of it given back next to a live one. -/
theorem faithful_of_run_sample :
    outputs step (init Machine.zero) sampleRun = outputs Arena.serve Arena.init sampleRun ∧
      Machine.AgreeOn ⟨4544, 128⟩ (after step (init Machine.zero) sampleRun).pool.machine
        ((after step (init Machine.zero) sampleRun).step (.deallocate .long 4672 3)).1.pool.machine := by
  obtain ⟨same, frame⟩ := faithful_of_run Machine.zero sampleRun (by decide +kernel)
  refine ⟨same, ?_⟩
  exact frame (.deallocate .long 4672 3) (by decide +kernel) True.intro ⟨.buffer, 1, 4544⟩
    (by decide +kernel) (by decide)

end TorchTest.PoolAlloc.World
