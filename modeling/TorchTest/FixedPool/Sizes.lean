import TorchTest.FixedPool.Refusal

/-!
# Requests of different sizes

The pools were written for one block size, and do not look at the size of a
request served from the list. `Honoured` is what a caller may expect of a call
all the same: the block returned has the bytes asked for, in granted memory and
clear of every live block, and the links written lie in granted memory and clear
of every live block.

It holds along every run whose requests are `Sized` (`honoured_of_run`): the one
that refills asks for the slot size of the class, and the others for no more
than the slots of the chunk the list stands in. A larger request served from
small slots is not honoured, be it a second size asked of a `MyAllocator` or an
object of a class derived from `Screen` (`unhonoured_of_larger`).
-/

namespace TorchTest.FixedPool

variable {ι : Type} [DecidableEq ι]

namespace World

/-- A call is sized if the pool can serve it: the sizes suit unless the system
refuses, and a refusal is reported by an exception. The system and the clients
keep their promises. -/
structure Sized (cls : ι → PoolClass) (w : World ι) (e : Event ι) : Prop where
  system : w.SystemOk cls e
  client : w.ClientOk e
  thrown : w.Refused e → ¬ AsksMalloc cls e
  suits : ¬ w.Refused e → w.Suits cls e

instance (cls : ι → PoolClass) (w : World ι) : ∀ e, Decidable (w.Suits cls e)
  | .allocate i size _ =>
      inferInstanceAs (Decidable ((w.freeStore i = 0 → (cls i).Serves size) ∧
        (w.freeStore i ≠ 0 →
          ∃ c ∈ w.chunks, c.owner = i ∧ w.freeStore i ∈ c.region ∧ size ≤ c.stride)))
  | .deallocate _ _ => isTrue True.intro
  | .write _ _ => isTrue True.intro

instance (cls : ι → PoolClass) (w : World ι) (e : Event ι) : Decidable (w.Sized cls e) :=
  decidable_of_iff
    (w.SystemOk cls e ∧ w.ClientOk e ∧ (w.Refused e → ¬ AsksMalloc cls e) ∧
      (¬ w.Refused e → w.Suits cls e))
    ⟨fun ⟨system, client, thrown, suits⟩ => ⟨system, client, thrown, suits⟩,
      fun sized => ⟨sized.system, sized.client, sized.thrown, sized.suits⟩⟩

/-- The block returned has its bytes in granted memory, clear of the live blocks. -/
def BlockOk (cls : ι → PoolClass) (w : World ι) (e : Event ι) : Prop :=
  match e, (w.step cls e).2 with
  | .allocate _ size _, .returned p _ =>
      (∃ c ∈ (w.step cls e).1.chunks, Interval.Within ⟨p, size⟩ c.region) ∧
        ∀ b ∈ w.live, Interval.Apart ⟨p, size⟩ b.span
  | _, _ => True

instance (cls : ι → PoolClass) (w : World ι) (e : Event ι) : Decidable (w.BlockOk cls e) := by
  unfold BlockOk
  split <;> infer_instance

/-- The call stores links only, in granted memory and clear of the live blocks
other than the one it takes back. -/
def LinksOk (cls : ι → PoolClass) (w : World ι) (e : Event ι) : Prop :=
  ∃ L, Machine.Wrote L w.machine (w.step cls e).1.machine ∧ ∀ p ∈ L,
    (∃ c ∈ (w.step cls e).1.chunks, Interval.Within ⟨p, pointerSize⟩ c.region) ∧
    ∀ b ∈ w.live, e ≠ .deallocate b.owner b.ptr → Interval.Apart ⟨p, pointerSize⟩ b.span

/-- What a caller may expect of an event. -/
structure Honoured (cls : ι → PoolClass) (w : World ι) (e : Event ι) : Prop where
  block : w.BlockOk cls e
  links : e.IsCall → w.LinksOk cls e

variable {cls : ι → PoolClass} {w : World ι} {a : ι → FreeStore Slot} {e : Event ι}
  {es : List (Event ι)} {i : ι}

omit [DecidableEq ι] in
theorem granted_iff : w.Granted e ↔ ¬ w.Refused e := by
  cases e with
  | allocate i size answer =>
    cases answer with
    | none => exact Iff.rfl
    | some base => exact ⟨fun _ refused => refused, fun _ => True.intro⟩
  | deallocate i p => exact ⟨fun _ refused => refused, fun _ => True.intro⟩
  | write p v => exact ⟨fun _ refused => refused, fun _ => True.intro⟩

omit [DecidableEq ι] in
theorem Sized.allowed (sized : w.Sized cls e) (granted : ¬ w.Refused e) : w.Allowed cls e :=
  ⟨sized.system, granted_iff.mpr granted, sized.client, sized.suits granted⟩

theorem Inv.step_sized (inv : w.Inv cls a) (sized : w.Sized cls e) :
    ∃ a', (w.step cls e).1.Inv cls a' := by
  by_cases refused : w.Refused e
  · exact ⟨a, by rwa [step_of_refused refused (sized.thrown refused)]⟩
  · obtain ⟨a', inv', _⟩ := inv.step (sized.allowed refused)
    exact ⟨a', inv'⟩

/-- A request that is served gets its bytes. -/
theorem Inv.step_blockOk (inv : w.Inv cls a) (allowed : w.Allowed cls e) : w.BlockOk cls e := by
  unfold BlockOk
  split
  · next i size answer p request result =>
    obtain ⟨x, inv', taken, returned⟩ := inv.step_allocate allowed
    have known : x ∈ (Function.update a i ((a i).call (chunkSlots (cls i).chunk) .allocate).1 i).live := by
      rw [Function.update_self]
      exact FreeStore.mem_live_of_taken taken
    have start := (Result.returned.inj (returned.symm.trans result)).1
    have nonzero := (inv'.slotAddr_pos (Or.inl known)).ne'
    rw [start] at nonzero
    have live := live_step_returned result nonzero
    obtain ⟨y, slot, _, within⟩ := inv'.block_within (live ▸ List.mem_cons_self)
    obtain ⟨c, member, _, inside, _, _⟩ := inv'.slot_within (Or.inl slot)
    have blocks := inv'.blocks
    rw [live, List.pairwise_cons] at blocks
    exact ⟨⟨c, member, within.trans inside⟩, blocks.1⟩
  · exact True.intro

theorem Inv.step_honoured (inv : w.Inv cls a) (sized : w.Sized cls e) : w.Honoured cls e := by
  by_cases refused : w.Refused e
  · have same := step_of_refused refused (sized.thrown refused)
    have wrote : Machine.Wrote [] w.machine (w.step cls e).1.machine := by
      rw [same]
      exact Machine.Wrote.refl _
    refine ⟨?_, fun _ => ⟨[], wrote, fun p member => nomatch member⟩⟩
    cases e with
    | allocate i size answer =>
      cases answer with
      | some base => exact refused.elim
      | none =>
        unfold BlockOk
        rw [step_refused _ refused (sized.thrown refused)]
        exact True.intro
    | deallocate i p => exact refused.elim
    | write p v => exact refused.elim
  · have allowed := sized.allowed refused
    exact ⟨inv.step_blockOk allowed, inv.step_wrote allowed⟩

end World

open World in
/-- Along every run of sized calls every call is honoured. -/
theorem honoured_of_run {cls : ι → PoolClass} {m : Machine} {es : List (Event ι)}
    (run : Admissible (step cls) (Sized cls) (init m) es) :
    Admissible (step cls) (Honoured cls) (init m) es :=
  run.strengthen (I := fun w => ∃ a, w.Inv cls a) ⟨_, inv_init cls m⟩
    (fun _ _ ⟨_, inv⟩ sized => inv.step_sized sized)
    (fun _ _ ⟨_, inv⟩ sized => inv.step_honoured sized)

open World in
/-- A `MyAllocator` threaded for 64 bytes, asked for less, refused and released. -/
theorem honoured_of_run_smaller :
    let cls := fun _ : Unit => PoolClass.testMyAllocator
    Admissible (step cls) (Honoured cls) (init Machine.zero)
      [.allocate () 64 none, .allocate () 64 (some 4096), .allocate () 24 none, .write 4100 7,
        .deallocate () 4096, .allocate () 1 none] :=
  @honoured_of_run Unit _ (fun _ => PoolClass.testMyAllocator) _ _ (by decide +kernel)

open World in
/-- Slots of 8 bytes serve a request for 64, and slots of `Screen` an object of
24 bytes: the block returned runs out of the chunk, or into the next live block. -/
theorem unhonoured_of_larger :
    let sized := fun _ : Unit => PoolClass.testMyAllocator
    let screens := fun _ : Unit => PoolClass.demoScreenV1
    let promised := fun (cls : Unit → PoolClass) (w : World Unit) (e : Event Unit) =>
      w.SystemOk cls e ∧ w.ClientOk e ∧ w.Granted e
    let small : List (Event Unit) := [.allocate () 8 (some 4096)]
    let base : List (Event Unit) :=
      [.allocate () 16 (some 4096), .allocate () 16 none, .deallocate () 4096]
    (Admissible (step sized) (promised sized) (init Machine.zero)
        (small ++ [.allocate () 64 none]) ∧
      ¬ Honoured sized (after (step sized) (init Machine.zero) small) (.allocate () 64 none)) ∧
    Admissible (step screens) (promised screens) (init Machine.zero)
        (base ++ [.allocate () 24 none]) ∧
      ¬ Honoured screens (after (step screens) (init Machine.zero) base) (.allocate () 24 none) := by
  refine ⟨⟨by decide +kernel, fun honoured => ?_⟩, by decide +kernel, fun honoured => ?_⟩
  · exact absurd honoured.block (by decide +kernel)
  · exact absurd honoured.block (by decide +kernel)

end TorchTest.FixedPool
