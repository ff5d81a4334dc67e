import TorchTest.FixedPool.Partition

/-!
# Refused chunk requests

A call on an empty list asks the system for a chunk and may be refused. In both
`Screen` classes and in `MyAllocator` the refusal is an exception thrown before
anything is changed (`allocate_of_refused`), so the call might as well not have
been made (`refusals_of_run`).

The demo `allocator` asks `malloc` and does not test its result. A refused call
threads its links through address 0 (`allocator_writes_of_refused`), so it is
never unharmed, whatever the state (`unharmed_iff`).
-/

namespace TorchTest.FixedPool

/-- The exception leaves the function before anything is changed. -/
theorem PoolClass.allocate_of_refused {K : PoolClass} (thrown : K.kind ≠ .allocator) (m : Machine)
    (size : Nat) :
    K.allocate 0 m size none =
      { result := .error .badAlloc, freeStore := 0, machine := m,
        request := some (SizeT.mul K.chunk size) } := by
  rcases K with ⟨kind, C, positive, small⟩
  cases kind with
  | allocator => exact absurd rfl thrown
  | myAllocator => rfl
  | screenV1 => rfl
  | screenV2 => rfl

/-- The counted loop stores a pointer in every turn and one after it. -/
theorem length_stores_threadCounted (size n p : Nat) (m : Machine) :
    (threadCounted size n p m).stores.length = m.stores.length + (n + 1) := by
  induction n generalizing p m with
  | zero => rfl
  | succ n ih =>
    simp only [threadCounted]
    rw [ih, Machine.stores_storePtr, List.length_cons]
    omega

/-- The demo `allocator` stores its links whether or not it got a chunk. -/
theorem PoolClass.allocator_writes_of_refused {K : PoolClass} (kind : K.kind = .allocator)
    (m : Machine) (size : Nat) :
    (K.allocate 0 m size none).machine.stores.length = m.stores.length + K.chunk := by
  have pos := K.chunk_pos
  rcases K with ⟨kind', C, positive, small⟩
  subst kind
  change (threadCounted size (C - 1) 0 m).stores.length = _
  rw [length_stores_threadCounted]
  change 0 < C at pos
  change m.stores.length + (C - 1 + 1) = m.stores.length + C
  omega

variable {ι : Type} [DecidableEq ι]

namespace World

/-- The call asks the system for a chunk and is refused. -/
def Refused (w : World ι) : Event ι → Prop
  | .allocate i _ none => w.freeStore i = 0
  | _ => False

instance (w : World ι) : ∀ e, Decidable (w.Refused e)
  | .allocate i _ none => inferInstanceAs (Decidable (w.freeStore i = 0))
  | .allocate _ _ (some _) => isFalse id
  | .deallocate _ _ => isFalse id
  | .write _ _ => isFalse id

/-- The event is a request to a demo `allocator`, which asks `malloc`. -/
def AsksMalloc (cls : ι → PoolClass) : Event ι → Prop
  | .allocate i _ _ => (cls i).kind = .allocator
  | _ => False

instance (cls : ι → PoolClass) : ∀ e, Decidable (AsksMalloc cls e)
  | .allocate i _ _ => inferInstanceAs (Decidable ((cls i).kind = .allocator))
  | .deallocate _ _ => isFalse id
  | .write _ _ => isFalse id

/-- The failure is reported to the caller: an exception or a null pointer. -/
def Reported : Result → Prop
  | .failed failure _ => failure = .badAlloc
  | .returned ptr _ => ptr = 0
  | .done => False

/-- The call reports its failure, writes nothing, and leaves every `free_store_`
and the clients' blocks as they were. -/
structure Unharmed (cls : ι → PoolClass) (w : World ι) (e : Event ι) : Prop where
  reported : Reported (w.step cls e).2
  machine : (w.step cls e).1.machine = w.machine
  freeStore : (w.step cls e).1.freeStore = w.freeStore
  live : (w.step cls e).1.live = w.live

variable {cls : ι → PoolClass} {w : World ι} {e : Event ι} {es : List (Event ι)} {i : ι}

/-- A refused call that throws is no step at all. -/
theorem step_refused (size : Nat) (none : w.freeStore i = 0) (thrown : (cls i).kind ≠ .allocator) :
    w.step cls (.allocate i size .none) =
      (w, .failed .badAlloc (some (SizeT.mul (cls i).chunk size))) := by
  have same : Function.update w.freeStore i 0 = w.freeStore := by
    rw [← none]
    exact Function.update_eq_self ..
  simp only [step, none, PoolClass.allocate_of_refused thrown, grant, same]

/-- A refused call on the demo `allocator` stores one link per slot. -/
theorem stores_step_refused (size : Nat) (none : w.freeStore i = 0)
    (kind : (cls i).kind = .allocator) :
    (w.step cls (.allocate i size .none)).1.machine.stores.length =
      w.machine.stores.length + (cls i).chunk := by
  have written := PoolClass.allocator_writes_of_refused kind w.machine size
  rw [← none] at written
  rw [← written]
  simp only [step]
  split
  · split <;> rfl
  · rfl

/-- In every state a refused call leaves the pool as it was exactly when it does
not rest on `malloc`. -/
theorem unharmed_iff (refused : w.Refused e) : w.Unharmed cls e ↔ ¬ AsksMalloc cls e := by
  cases e with
  | allocate i size answer =>
    cases answer with
    | some base => exact refused.elim
    | none =>
      constructor
      · intro unharmed kind
        have written := stores_step_refused size refused kind
        rw [unharmed.machine] at written
        have positive := (cls i).chunk_pos
        omega
      · intro thrown
        have same := step_refused size refused thrown
        exact ⟨by rw [same]; exact rfl, by rw [same], by rw [same], by rw [same]⟩
  | deallocate i p => exact refused.elim
  | write p v => exact refused.elim

/-- A refused call that does not rest on `malloc` leaves the world alone. -/
theorem step_of_refused (refused : w.Refused e) (thrown : ¬ AsksMalloc cls e) :
    (w.step cls e).1 = w := by
  cases e with
  | allocate i size answer =>
    cases answer with
    | some base => exact refused.elim
    | none => rw [step_refused size refused thrown]
  | deallocate i p => exact refused.elim
  | write p v => exact refused.elim

end World

open World in
/-- A refused call leaves the pool as it was exactly when it is not a call of the
demo `allocator`, and over every run without refused calls of that class the
other calls give what they give with the refused ones removed. -/
theorem refusals_of_run (cls : ι → PoolClass) :
    (∀ w e, w.Refused e → (Unharmed cls w e ↔ ¬ AsksMalloc cls e)) ∧
      ∀ w es, Admissible (step cls) (fun w e => w.Refused e → ¬ AsksMalloc cls e) w es →
        outputs (step cls) w (kept (step cls) Refused w es) =
            keptOutputs (step cls) Refused w es ∧
          after (step cls) w (kept (step cls) Refused w es) = after (step cls) w es := by
  refine ⟨fun w e => unharmed_iff, fun w es run => ?_⟩
  obtain ⟨final, rest⟩ := run.drop Refused fun w e thrown refused =>
    step_of_refused refused (thrown refused)
  exact ⟨rest, final⟩

open World in
/-- A `MyAllocator` refused once, before a `Screen` and itself are served. -/
theorem refusals_of_run_mixed :
    let cls := fun screen : Bool =>
      if screen then PoolClass.demoScreenV2 else PoolClass.testMyAllocator
    let es : List (Event Bool) :=
      [.allocate false 24 none, .allocate true 8 (some 4096), .allocate false 24 (some 8192)]
    outputs (step cls) (init Machine.zero) (es.drop 1) =
        keptOutputs (step cls) Refused (init Machine.zero) es ∧
      Unharmed cls (init Machine.zero) (.allocate false 24 none) := by
  intro cls es
  obtain ⟨each, runs⟩ := refusals_of_run cls
  exact ⟨(runs _ es (by decide +kernel)).1, (each _ _ (by decide)).mpr (by decide)⟩

open World in
/-- The first call on an `allocator` with no memory left writes at address 0. -/
theorem refused_malloc_writes :
    let w : World Unit := init Machine.zero
    let e : Event Unit := .allocate () 40 none
    w.Refused e ∧ ¬ w.Unharmed (fun _ => PoolClass.demoAllocator) e ∧
      0 ∈ (w.step (fun _ => PoolClass.demoAllocator) e).1.machine.stores := by
  refine ⟨by decide, fun unharmed => ?_, by decide +kernel⟩
  have stores := congrArg Machine.stores unharmed.machine
  exact absurd stores (by decide +kernel)

end TorchTest.FixedPool
