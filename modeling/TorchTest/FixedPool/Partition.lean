import TorchTest.FixedPool.Refinement

/-!
# Pools used with one block size each

`Valid cls s` is the use the pools are written for: each object is always called
with its own size, the system grants fresh chunks, and the clients behave. Along
such runs every event is `Allowed`, provided each size can be threaded
(`World.allowed_of_valid`).

`partitioned_of_run` is the whole-run statement: the slots of all chunks an
object ever obtained are its live blocks and the nodes of its list, each slot in
exactly one of the two. Without a bound on `CHUNK * size` it fails
(`overlapping_blocks_of_wrapped_chunk`): the wrapped chunk length is granted,
and the blocks of one object run into those of another.
-/

namespace TorchTest.FixedPool

variable {ι : Type} [DecidableEq ι]

namespace World

/-- Every call on the object `i` asks for `s i` bytes. -/
def FixedSize (s : ι → Nat) : Event ι → Prop
  | .allocate i size _ => size = s i
  | _ => True

instance (s : ι → Nat) : ∀ e, Decidable (FixedSize s e)
  | .allocate i size _ => inferInstanceAs (Decidable (size = s i))
  | .deallocate _ _ => isTrue True.intro
  | .write _ _ => isTrue True.intro

/-- A call of a pool used with its own size, by valid clients, with every
request granted from fresh memory. -/
def Valid (cls : ι → PoolClass) (s : ι → Nat) (w : World ι) (e : Event ι) : Prop :=
  w.SystemOk cls e ∧ w.Granted e ∧ w.ClientOk e ∧ FixedSize s e

instance (cls : ι → PoolClass) (s : ι → Nat) (w : World ι) (e : Event ι) :
    Decidable (w.Valid cls s e) :=
  inferInstanceAs (Decidable (_ ∧ _ ∧ _ ∧ _))

/-- The slots `base + j * s i` of all chunks the object `i` ever obtained. -/
def slotsOf (cls : ι → PoolClass) (s : ι → Nat) (w : World ι) (i : ι) : List Nat :=
  (w.chunksOf i).flatMap fun c => progression c.base (s i) (cls i).chunk

/-- The list of each object is finite, acyclic and null-terminated, its nodes
and the live blocks are exactly the slots of the object, each slot once, and no
two live blocks overlap. -/
structure Partitioned (cls : ι → PoolClass) (s : ι → Nat) (w : World ι) : Prop where
  lists : ∀ i, ∃ nodes,
    Chain (fun p => w.machine.loadPtr (p + (cls i).link)) (w.freeStore i) nodes ∧
      nodes.Nodup ∧ (w.slotsOf cls s i).Nodup ∧
      ((w.liveOf i).map Block.ptr ++ nodes).Perm (w.slotsOf cls s i)
  blocks : w.live.Pairwise fun b c => Interval.Apart b.span c.span
  sizes : ∀ b ∈ w.live, b.size = s b.owner

variable {cls : ι → PoolClass} {s : ι → Nat} {w : World ι} {a : ι → FreeStore Slot} {e : Event ι}
  {es : List (Event ι)}

/-! ## What a step can add -/

/-- A new chunk comes from a request, and has the stride of its size. -/
theorem mem_chunks_step {c : Chunk ι} (member : c ∈ (w.step cls e).1.chunks) :
    c ∈ w.chunks ∨ ∃ size answer, e = .allocate c.owner size answer ∧
      c.stride = (cls c.owner).stride size := by
  cases e with
  | allocate i size answer =>
    have granted : c ∈ grant w.chunks i ((cls i).stride size)
        ((cls i).allocate (w.freeStore i) w.machine size answer).request answer := by
      simp only [step] at member
      split at member
      · split at member <;> exact member
      · exact member
    unfold grant at granted
    split at granted
    · rcases List.mem_append.mp granted with old | new
      · exact Or.inl old
      · rw [List.mem_singleton.mp new]
        exact Or.inr ⟨size, _, rfl, rfl⟩
    · exact Or.inl granted
  | deallocate i p => exact Or.inl member
  | write p v => exact Or.inl member

/-- A new live block comes from a request of its size. -/
theorem mem_live_step {b : Block ι} (member : b ∈ (w.step cls e).1.live) :
    b ∈ w.live ∨ ∃ answer, e = .allocate b.owner b.size answer := by
  cases e with
  | allocate i size answer =>
    simp only [step] at member
    split at member
    · split at member
      · exact Or.inl member
      · rcases List.mem_cons.mp member with rfl | old
        · exact Or.inr ⟨answer, rfl⟩
        · exact Or.inl old
    · exact Or.inl member
  | deallocate i p => exact Or.inl (List.mem_of_mem_eraseP member)
  | write p v => exact Or.inl member

/-- The block just returned is the newest live one. -/
theorem live_step_returned {i : ι} {size p : Nat} {answer request : Option Nat}
    (result : (w.step cls (.allocate i size answer)).2 = .returned p request) (nonzero : p ≠ 0) :
    (w.step cls (.allocate i size answer)).1.live = { owner := i, ptr := p, size } :: w.live := by
  simp only [step] at result ⊢
  split at result
  · split at result
    · exact absurd (Result.returned.inj result).1.symm nonzero
    · next zero =>
      rw [(Result.returned.inj result).1] at zero ⊢
      rw [if_neg zero]
  · cases result

/-! ## Runs with one size per object -/

/-- The invariant, with the sizes of chunks and blocks fixed by their owner. -/
structure FixedInv (cls : ι → PoolClass) (s : ι → Nat) (w : World ι) (a : ι → FreeStore Slot) :
    Prop where
  inv : w.Inv cls a
  strides : ∀ c ∈ w.chunks, c.stride = s c.owner
  sizes : ∀ b ∈ w.live, b.size = s b.owner

theorem fixedInv_init (cls : ι → PoolClass) (s : ι → Nat) (m : Machine) :
    (init m : World ι).FixedInv cls s fun _ => FreeStore.empty :=
  ⟨inv_init cls m, fun _ member => (nomatch member), fun _ member => (nomatch member)⟩

/-- With one size per object every size suits. -/
theorem allowed_of_valid (fixed : w.FixedInv cls s a) (serves : ∀ i, (cls i).Serves (s i))
    (valid : w.Valid cls s e) : w.Allowed cls e := by
  obtain ⟨system, granted, client, size⟩ := valid
  refine ⟨system, granted, client, ?_⟩
  cases e with
  | allocate i n answer =>
    have own : n = s i := size
    subst own
    refine ⟨fun _ => serves i, fun some => ?_⟩
    obtain ⟨x, rest, free, head⟩ := fixed.inv.exists_head some
    obtain ⟨c, member, owner, within, length, wf⟩ :=
      fixed.inv.slot_within (Or.inr (free ▸ List.mem_cons_self : x ∈ (a i).free))
    refine ⟨c, member, owner, head ▸ within.mem ⟨le_refl _, Nat.lt_add_of_pos_right ?_⟩, ?_⟩
    · exact length ▸ wf.stride_pos
    · rw [fixed.strides c member, owner]
  | deallocate i p => exact True.intro
  | write p v => exact True.intro

theorem FixedInv.step (fixed : w.FixedInv cls s a) (serves : ∀ i, (cls i).Serves (s i))
    (valid : w.Valid cls s e) : ∃ a', (w.step cls e).1.FixedInv cls s a' := by
  obtain ⟨a', inv', _⟩ := fixed.inv.step (allowed_of_valid fixed serves valid)
  refine ⟨a', inv', fun c member => ?_, fun b member => ?_⟩
  · rcases mem_chunks_step member with old | ⟨size, answer, rfl, stride⟩
    · exact fixed.strides c old
    · have own : size = s c.owner := valid.2.2.2
      rw [stride, own]
      exact (serves c.owner).1
  · rcases mem_live_step member with old | ⟨answer, rfl⟩
    · exact fixed.sizes b old
    · exact valid.2.2.2

/-- Every event of a valid run is allowed. -/
theorem allowed_of_run (serves : ∀ i, (cls i).Serves (s i)) {m : Machine}
    (run : Admissible (step cls) (Valid cls s) (init m) es) :
    Admissible (step cls) (Allowed cls) (init m) es :=
  run.strengthen (I := fun w => ∃ a, w.FixedInv cls s a) ⟨_, fixedInv_init cls s m⟩
    (fun _ _ ⟨_, fixed⟩ valid => fixed.step serves valid)
    (fun _ _ ⟨_, fixed⟩ valid => allowed_of_valid fixed serves valid)

/-- The slots of all chunks are the addresses of the abstract slots. -/
theorem map_slotAddr_slots (chunks : List (Chunk ι)) (i : ι) (C : Nat) :
    (FreeStore.slots (chunkSlots C) (chunks.filter (·.owner = i)).length).map
        (slotAddr chunks i) =
      (chunks.filter (·.owner = i)).flatMap fun c => progression c.base c.stride C := by
  induction chunks using List.reverseRecOn with
  | nil => rfl
  | append_singleton chunks c ih =>
    have old : (FreeStore.slots (chunkSlots C) (chunks.filter (·.owner = i)).length).map
        (slotAddr (chunks ++ [c]) i) =
          (FreeStore.slots (chunkSlots C) (chunks.filter (·.owner = i)).length).map
            (slotAddr chunks i) :=
      List.map_congr_left fun x member =>
        congrArg Interval.start (slotSpan_append (mem_slots_chunkSlots.mp member).1)
    rcases eq_or_ne c.owner i with rfl | other
    · rw [List.filter_append, List.filter_cons_of_pos (by simp), List.filter_nil,
        List.length_append, List.length_singleton, FreeStore.slots_succ, List.map_append, old, ih,
        map_slotAddr_new, List.flatMap_append, List.flatMap_singleton]
    · rw [List.filter_append, List.filter_cons_of_neg (by simpa using other), List.filter_nil,
        List.append_nil, old, ih]

/-- The invariant spells out a partition of the slots. -/
theorem FixedInv.partitioned (fixed : w.FixedInv cls s a) : w.Partitioned cls s := by
  have inv := fixed.inv
  refine ⟨fun i => ⟨_, inv.chain i, (inv.chain i).nodup, ?_⟩, inv.blocks, fixed.sizes⟩
  have strides : w.slotsOf cls s i =
      (w.chunksOf i).flatMap fun c => progression c.base c.stride (cls i).chunk := by
    refine List.flatMap_congr fun c member => ?_
    obtain ⟨known, owner⟩ := List.mem_filter.mp member
    rw [fixed.strides c known, of_decide_eq_true owner]
  have slots : ((a i).live ++ (a i).free).map (slotAddr w.chunks i) |>.Perm
      (w.slotsOf cls s i) := by
    rw [strides, chunksOf, ← map_slotAddr_slots]
    have sound := inv.sound i
    rw [FreeStore.Sound, inv.count i] at sound
    exact sound.map _
  have nodup : (((a i).live ++ (a i).free).map (slotAddr w.chunks i)).Nodup :=
    ((inv.sound i).nodup (distinct_chunkSlots _)).map_on fun x left y right same =>
      inv.slot_inj (List.mem_append.mp left) (List.mem_append.mp right) same
  refine ⟨slots.nodup_iff.mp nodup, ?_⟩
  rw [List.map_append] at slots
  exact ((inv.live i).append_right _).trans slots

/-- A known slot has the size of its object. -/
theorem FixedInv.slotSpan_eq (fixed : w.FixedInv cls s a) {i : ι} {x : Slot}
    (known : x ∈ (a i).live ∨ x ∈ (a i).free) :
    slotSpan w.chunks i x = ⟨slotAddr w.chunks i x, s i⟩ := by
  obtain ⟨c, member, owner, _, length, _⟩ := fixed.inv.slot_within known
  rw [← owner, ← fixed.strides c member, ← length]
  subst owner
  rfl

/-- Every live slot is somebody's block. -/
theorem FixedInv.exists_block (fixed : w.FixedInv cls s a) {i : ι} {x : Slot}
    (slot : x ∈ (a i).live) :
    ∃ b ∈ w.live, b.owner = i ∧ b.ptr = slotAddr w.chunks i x ∧ b.size = s i := by
  have member := (fixed.inv.live i).mem_iff.mpr (List.mem_map_of_mem slot)
  obtain ⟨b, own, start⟩ := List.mem_map.mp member
  obtain ⟨live, owner⟩ := List.mem_filter.mp own
  have owner := of_decide_eq_true owner
  exact ⟨b, live, owner, start, by rw [fixed.sizes b live, owner]⟩

/-- The call returned, and handed out a block if it was a request. -/
def Returned : Result → Prop
  | .returned ptr _ => ptr ≠ 0
  | .failed _ _ => False
  | .done => True

theorem FixedInv.returned (fixed : w.FixedInv cls s a) (serves : ∀ i, (cls i).Serves (s i))
    (valid : w.Valid cls s e) : Returned (w.step cls e).2 := by
  cases e with
  | allocate i size answer =>
    obtain ⟨x, inv', taken, result⟩ :=
      fixed.inv.step_allocate (allowed_of_valid fixed serves valid)
    rw [result]
    have live := FreeStore.mem_live_of_taken taken
    exact (inv'.slotAddr_pos (i := i) (Or.inl (by rwa [Function.update_self]))).ne'
  | deallocate i p => exact True.intro
  | write p v => exact True.intro

end World

/-- A size that `allocator` and `MyAllocator` can thread. -/
theorem PoolClass.serves_of_sized {K : PoolClass} {size : Nat}
    (sized : K.kind = .allocator ∨ K.kind = .myAllocator) (large : pointerSize ≤ size)
    (nowrap : K.chunk * size < addressSpace) : K.Serves size := by
  rcases K with ⟨kind, C, positive, small⟩
  rcases sized with rfl | rfl
  · exact serves_of_fixed rfl large nowrap
  · exact serves_of_fixed rfl large nowrap

open World in
/-- After every run of any number of `allocator` and `MyAllocator` objects, each
used with its own size whose chunk length does not wrap, the slots are exactly
partitioned, and every request was served. -/
theorem partitioned_of_run {cls : ι → PoolClass} {s : ι → Nat}
    (sized : ∀ i, (cls i).kind = .allocator ∨ (cls i).kind = .myAllocator)
    (large : ∀ i, pointerSize ≤ s i) (nowrap : ∀ i, (cls i).chunk * s i < addressSpace)
    (m : Machine) (es : List (Event ι))
    (run : Admissible (step cls) (Valid cls s) (init m) es) :
    (after (step cls) (init m) es).Partitioned cls s ∧
      ∀ r ∈ outputs (step cls) (init m) es, Returned r := by
  have serves : ∀ i, (cls i).Serves (s i) := fun i =>
    PoolClass.serves_of_sized (sized i) (large i) (nowrap i)
  have start : ∃ a, (init m : World ι).FixedInv cls s a := ⟨_, fixedInv_init cls s m⟩
  have keep : ∀ (w : World ι) (e : Event ι), (∃ a, w.FixedInv cls s a) → w.Valid cls s e →
      ∃ a, (w.step cls e).1.FixedInv cls s a :=
    fun w e ⟨a, fixed⟩ valid => fixed.step serves valid
  constructor
  · obtain ⟨a, fixed⟩ := run.invariant start keep
    exact fixed.partitioned
  · exact run.forall_outputs start keep fun w e ⟨a, fixed⟩ valid => fixed.returned serves valid

/-- `Foo` (40 bytes) and `Goo` (48 bytes), each with its own `allocator`. -/
def fooGooSize (goo : Bool) : Nat := if goo then 48 else 40

open World in
/-- `Foo` and `Goo` objects come and go, with a write into a `Foo` between. -/
theorem partitioned_of_run_foo_goo :
    let cls := fun _ : Bool => PoolClass.demoAllocator
    let es : List (Event Bool) :=
      [.allocate false 40 (some 4096), .allocate true 48 (some 8192), .write 4100 7,
        .deallocate false 4096, .allocate true 48 none, .allocate false 40 none]
    (after (step cls) (init Machine.zero) es).Partitioned cls fooGooSize ∧
      ∀ r ∈ outputs (step cls) (init Machine.zero) es, Returned r :=
  @partitioned_of_run Bool _ (fun _ => PoolClass.demoAllocator) fooGooSize (by decide)
    (by decide) (by decide) Machine.zero _ (by decide +kernel)

/-- A block size of `2 ^ 62` bytes, and one of 8. -/
def wrappingSize (small : Bool) : Nat := if small then 8 else 2 ^ 62

open World in
/-- With `CHUNK = 4` a request for `2 ^ 62` bytes asks the system for
`4 * 2 ^ 62 = 0` bytes modulo `2 ^ 64`. The block returned covers the chunk that
another object gets next. -/
theorem overlapping_blocks_of_wrapped_chunk :
    let cls := fun _ : Bool => PoolClass.testMyAllocator
    let es : List (Event Bool) :=
      [.allocate false (2 ^ 62) (some 4096), .allocate true 8 (some 4128)]
    (∀ i, pointerSize ≤ wrappingSize i) ∧
      Admissible (step cls) (Valid cls wrappingSize) (init Machine.zero) es ∧
      ¬ (after (step cls) (init Machine.zero) es).Partitioned cls wrappingSize := by
  refine ⟨by decide, by decide +kernel, fun partitioned => ?_⟩
  exact absurd partitioned.blocks (by decide +kernel)

end TorchTest.FixedPool
