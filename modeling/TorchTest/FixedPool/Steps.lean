import TorchTest.FixedPool.Invariant

/-!
# What one event does, and that it keeps the invariant

A call of an object is one of three changes of the world: `grown` threads a
granted chunk into an empty list, `popped` hands out the head of the list, and
`pushed` takes a block back. `step_allocate` and `step_deallocate` identify the
calls of the source with them; `Inv.grown`, `Inv.popped`, `Inv.pushed` and
`Inv.written` carry the invariant across.
-/

namespace TorchTest.FixedPool

variable {ι : Type} [DecidableEq ι]

namespace World

/-- The object `i` threads a chunk granted at `base`. -/
def grown (cls : ι → PoolClass) (w : World ι) (i : ι) (size base : Nat) : World ι :=
  { w with
    machine := threaded (cls i).link size ((cls i).chunk - 1) base w.machine
    freeStore := Function.update w.freeStore i base
    chunks := w.chunks ++ [{ owner := i, base, length := (cls i).chunk * size, stride := size }] }

/-- The object `i` hands out the head of its list for a request of `size` bytes. -/
def popped (cls : ι → PoolClass) (w : World ι) (i : ι) (size : Nat) : World ι :=
  { w with
    freeStore := Function.update w.freeStore i (w.machine.loadPtr (w.freeStore i + (cls i).link))
    live := { owner := i, ptr := w.freeStore i, size } :: w.live }

/-- The object `i` takes the block at `ptr` back. -/
def pushed (cls : ι → PoolClass) (w : World ι) (i : ι) (ptr : Nat) : World ι :=
  { w with
    machine := w.machine.storePtr (ptr + (cls i).link) (w.freeStore i)
    freeStore := Function.update w.freeStore i ptr
    live := w.live.eraseP fun b => b.owner = i ∧ b.ptr = ptr }

variable {cls : ι → PoolClass} {w : World ι} {a : ι → FreeStore Slot} {i j : ι}

theorem step_deallocate (ptr : Nat) :
    w.step cls (.deallocate i ptr) = (w.pushed cls i ptr, .done) := by
  simp only [step, PoolClass.deallocate_eq, pushHead, pushed]

theorem step_allocate_of_ne_zero {size : Nat} {answer : Option Nat} (some : w.freeStore i ≠ 0) :
    w.step cls (.allocate i size answer) =
      (w.popped cls i size, .returned (w.freeStore i) none) := by
  simp only [step, PoolClass.allocate_of_ne_zero _ _ _ _ some, popHead, grant, if_neg some, popped]

theorem step_allocate_of_granted {size base : Nat} (none : w.freeStore i = 0)
    (serves : (cls i).Serves size) (nonzero : 0 < base)
    (bound : base + (cls i).chunk * size < addressSpace) :
    w.step cls (.allocate i size (some base)) =
      ((w.grown cls i size base).popped cls i size,
        .returned base (some ((cls i).chunk * size))) := by
  have stride : (cls i).kind.stride size = size := serves.1
  simp only [step, none, PoolClass.allocate_of_granted _ _ serves bound, popHead, grant, stride,
    if_neg nonzero.ne', popped, grown, Function.update_self, Function.update_idem]

end World

/-! ## Slots of a granted chunk -/

theorem slotSpan_new (chunks : List (Chunk ι)) (c : Chunk ι) (n : Nat) :
    slotSpan (chunks ++ [c]) c.owner ((chunks.filter (·.owner = c.owner)).length, n) =
      ⟨c.base + n * c.stride, c.stride⟩ := by
  simp [slotSpan, List.filter_append]

/-- The slots of a granted chunk are the progression that was threaded. -/
theorem map_slotAddr_new (chunks : List (Chunk ι)) (c : Chunk ι) (C : Nat) :
    (chunkSlots C (chunks.filter (·.owner = c.owner)).length).map
        (slotAddr (chunks ++ [c]) c.owner) = progression c.base c.stride C := by
  rw [progression_eq_map_range, chunkSlots, List.map_map]
  exact List.map_congr_left fun n _ => congrArg Interval.start (slotSpan_new chunks c n)

namespace World

variable {cls : ι → PoolClass} {w : World ι} {a : ι → FreeStore Slot} {i j : ι}

/-- A deallocation removes one live block with this owner and address. -/
theorem pushed_split (cls : ι → PoolClass) {b : Block ι} (live : b ∈ w.live) (owner : b.owner = i) :
    ∃ c before later, c.owner = i ∧ c.ptr = b.ptr ∧ w.live = before ++ c :: later ∧
      (w.pushed cls i b.ptr).live = before ++ later := by
  obtain ⟨c, before, later, _, key, split, erased⟩ :=
    List.exists_of_eraseP (p := fun c : Block ι => c.owner = i ∧ c.ptr = b.ptr) live
      (by simp [owner])
  rw [decide_eq_true_eq] at key
  exact ⟨c, before, later, key.1, key.2, split, erased⟩

namespace Inv

/-- Known slots keep their bytes when a chunk is added. -/
theorem slotSpan_append (inv : w.Inv cls a) {x : Slot} (more : List (Chunk ι))
    (known : x ∈ (a j).live ∨ x ∈ (a j).free) :
    slotSpan (w.chunks ++ more) j x = slotSpan w.chunks j x :=
  FixedPool.slotSpan_append (inv.slot_lt known).1

/-- The list of an object survives any change of memory that leaves its free
slots alone. -/
theorem chain_congr (inv : w.Inv cls a) {m : Machine}
    (agree : ∀ x ∈ (a j).free, Machine.AgreeOn (slotSpan w.chunks j x) w.machine m) :
    Chain (fun p => m.loadPtr (p + (cls j).link)) (w.freeStore j)
      ((a j).free.map (slotAddr w.chunks j)) := by
  refine (inv.chain j).congr fun p member => ?_
  obtain ⟨x, free, rfl⟩ := List.mem_map.mp member
  exact (agree x free).loadPtr_eq (inv.link_within (Or.inr free))

/-- One store replaced by a sound one. -/
theorem sound_update (inv : w.Inv cls a) {s : FreeStore Slot}
    (sound : s.Sound (chunkSlots (cls i).chunk)) (j : ι) :
    (Function.update a i s j).Sound (chunkSlots (cls j).chunk) :=
  (Function.forall_update_iff a fun j s => s.Sound (chunkSlots (cls j).chunk)).mpr
    ⟨sound, fun j _ => inv.sound j⟩ j

/-- One store replaced by one over as many chunks. -/
theorem count_update (inv : w.Inv cls a) {s : FreeStore Slot} (same : s.chunks = (a i).chunks)
    (j : ι) : (Function.update a i s j).chunks = (w.chunksOf j).length :=
  (Function.forall_update_iff a fun j s => s.chunks = (w.chunksOf j).length).mpr
    ⟨same.trans (inv.count i), fun j _ => inv.count j⟩ j

/-- A refill changes no slot known before. -/
theorem grown_agree (inv : w.Inv cls a) {size base : Nat} (serves : (cls i).Serves size)
    (fresh : w.Fresh base ((cls i).chunk * size)) {x : Slot}
    (known : x ∈ (a j).live ∨ x ∈ (a j).free) :
    Machine.AgreeOn (slotSpan w.chunks j x) w.machine (w.grown cls i size base).machine := by
  obtain ⟨c, member, _, within, _, _⟩ := inv.slot_within known
  apply agreeOn_threaded _ serves.2.1
  rw [Nat.sub_add_cancel (cls i).chunk_pos]
  exact ((fresh.2.2 c member).mono (.refl _) within).separate

/-- A refill keeps the invariant. -/
theorem grown (inv : w.Inv cls a) {size base : Nat} (serves : (cls i).Serves size)
    (fresh : w.Fresh base ((cls i).chunk * size)) (none : (a i).free = []) :
    (w.grown cls i size base).Inv cls
      (Function.update a i ((a i).refill (chunkSlots (cls i).chunk))) := by
  have refilled : (a i).refill (chunkSlots (cls i).chunk) = _ := FreeStore.refill_of_nil none
  have lives : ∀ j, (Function.update a i ((a i).refill (chunkSlots (cls i).chunk)) j).live =
      (a j).live := by
    intro j
    rcases eq_or_ne j i with rfl | other
    · rw [Function.update_self, refilled]
    · rw [Function.update_of_ne other]
  have addrs : ∀ j, (a j).live.map (slotAddr (w.grown cls i size base).chunks j) =
      (a j).live.map (slotAddr w.chunks j) := fun j =>
    List.map_congr_left fun x live =>
      congrArg Interval.start (inv.slotSpan_append _ (Or.inl live))
  refine
    { sound := inv.sound_update (inv.sound i).refill, count := ?_, chain := ?_, live := ?_,
      fits := ?_, blocks := inv.blocks, apart := ?_, wf := ?_ }
  · intro j
    rcases eq_or_ne j i with rfl | other
    · rw [Function.update_self, refilled]
      simp [World.grown, chunksOf, List.filter_append, inv.count j]
    · rw [Function.update_of_ne other, inv.count j]
      simp [World.grown, chunksOf, List.filter_append, other.symm]
  · intro j
    rcases eq_or_ne j i with rfl | other
    · -- the new chunk is the whole list
      have positive := (cls j).chunk_pos
      have slots : (a j).chunks = (w.chunks.filter (·.owner = j)).length := inv.count j
      have bound := fresh.2.1
      have stride : ((cls j).chunk - 1) * size ≤ (cls j).chunk * size :=
        Nat.mul_le_mul_right _ (Nat.sub_le _ _)
      rw [Function.update_self, refilled]
      simp only [World.grown, Function.update_self, slots]
      rw [map_slotAddr_new w.chunks ⟨j, base, (cls j).chunk * size, size⟩ (cls j).chunk]
      have chain := chain_threaded (n := (cls j).chunk - 1) w.machine serves.2.1 fresh.1 (by omega)
      rwa [Nat.sub_add_cancel positive] at chain
    · have kept := inv.chain_congr (j := j) fun x free =>
        inv.grown_agree serves fresh (Or.inr free)
      have same : (a j).free.map (slotAddr (w.grown cls i size base).chunks j) =
          (a j).free.map (slotAddr w.chunks j) :=
        List.map_congr_left fun x free =>
          congrArg Interval.start (inv.slotSpan_append _ (Or.inr free))
      rw [Function.update_of_ne other, same]
      simp only [World.grown, Function.update_of_ne other] at kept ⊢
      exact kept
  · intro j
    rw [lives, addrs]
    exact inv.live j
  · intro b live
    obtain ⟨x, member, start, length⟩ := inv.fits b live
    have span := inv.slotSpan_append (j := b.owner)
      [⟨i, base, (cls i).chunk * size, size⟩] (Or.inl member)
    refine ⟨x, by rw [lives]; exact member, ?_, ?_⟩
    · exact (congrArg Interval.start span).trans start
    · exact length.trans_eq (congrArg Interval.length span).symm
  · refine List.pairwise_append.mpr ⟨inv.apart, List.pairwise_singleton _ _, ?_⟩
    intro c member d new
    rw [List.mem_singleton.mp new]
    exact (fresh.2.2 c member).symm
  · intro c member
    rcases List.mem_append.mp member with old | new
    · exact inv.wf c old
    · rw [List.mem_singleton.mp new]
      exact ⟨fresh.1, fresh.2.1, rfl, serves.2.1⟩

/-- The head of the list is the first free slot. -/
theorem exists_head (inv : w.Inv cls a) (some : w.freeStore i ≠ 0) :
    ∃ x rest, (a i).free = x :: rest ∧ slotAddr w.chunks i x = w.freeStore i := by
  obtain ⟨tail, nodes, _⟩ := (inv.chain i).exists_cons some
  cases free : (a i).free with
  | nil => simp [free] at nodes
  | cons x rest =>
    rw [free, List.map_cons, List.cons.injEq] at nodes
    exact ⟨x, rest, rfl, nodes.1⟩

theorem free_eq_nil_iff (inv : w.Inv cls a) : (a i).free = [] ↔ w.freeStore i = 0 := by
  constructor
  · intro none
    have chain := inv.chain i
    rw [none, List.map_nil] at chain
    exact Chain.nil_iff.mp chain
  · intro zero
    have chain := inv.chain i
    rw [zero] at chain
    exact List.map_eq_nil_iff.mp chain.eq_nil

/-- The head of a list is an address. -/
theorem freeStore_lt (inv : w.Inv cls a) : w.freeStore i < addressSpace := by
  by_cases zero : w.freeStore i = 0
  · rw [zero]
    decide
  · obtain ⟨x, rest, free, head⟩ := inv.exists_head zero
    rw [← head]
    exact inv.slotAddr_lt (Or.inr (free ▸ List.mem_cons_self))

/-- Handing out a head slot with enough room keeps the invariant. -/
theorem popped (inv : w.Inv cls a) {x : Slot} {rest : List Slot} (size : Nat)
    (some : (a i).free = x :: rest) (room : size ≤ (slotSpan w.chunks i x).length) :
    (w.popped cls i size).Inv cls (Function.update a i (a i).take.1) := by
  have taken := FreeStore.take_of_cons some
  have chain := inv.chain i
  rw [some, List.map_cons] at chain
  obtain ⟨head, _, _⟩ := Chain.cons_iff.mp chain
  have free : x ∈ (a i).free := some ▸ List.mem_cons_self
  refine
    { sound := inv.sound_update (inv.sound i).take,
      count := inv.count_update (by rw [taken]), chain := ?_, live := ?_, fits := ?_,
      blocks := ?_, apart := inv.apart, wf := inv.wf }
  · intro j
    rcases eq_or_ne j i with rfl | other
    · simp only [World.popped, Function.update_self, taken]
      exact chain.pop
    · simp only [World.popped, Function.update_of_ne other]
      exact inv.chain j
  · intro j
    rcases eq_or_ne j i with rfl | other
    · simp only [World.popped, liveOf, Function.update_self, taken, decide_true,
        List.filter_cons_of_pos, List.map_cons, head]
      exact (inv.live j).cons _
    · simp only [World.popped, liveOf, Function.update_of_ne other]
      rw [List.filter_cons_of_neg (by simpa using other.symm)]
      exact inv.live j
  · intro b member
    rcases List.mem_cons.mp member with rfl | old
    · refine ⟨x, ?_, head.symm, room⟩
      simp only [Function.update_self, taken]
      exact List.mem_cons_self
    · obtain ⟨y, live, start, length⟩ := inv.fits b old
      refine ⟨y, ?_, start, length⟩
      rcases eq_or_ne b.owner i with owner | other
      · rw [owner] at live ⊢
        simp only [Function.update_self, taken]
        exact List.mem_cons_of_mem _ live
      · rwa [Function.update_of_ne other]
  · refine List.pairwise_cons.mpr ⟨fun b member => ?_, inv.blocks⟩
    obtain ⟨y, live, _, within⟩ := inv.block_within member
    have other : (i, x) ≠ (b.owner, y) := by
      intro same
      obtain ⟨rfl, rfl⟩ := Prod.mk.inj same
      exact (inv.sound _).not_both (distinct_chunkSlots _) live free
    refine (inv.separate (Or.inr free) (Or.inl live) other).mono ⟨head.ge, ?_⟩ within
    simp only [Interval.stop, Block.span, head, slotAddr]
    omega

/-- The slot of a live block. -/
theorem exists_slot (inv : w.Inv cls a) {b : Block ι} (live : b ∈ w.live) (owner : b.owner = i) :
    ∃ x ∈ (a i).live, slotAddr w.chunks i x = b.ptr := by
  subst owner
  obtain ⟨x, member, start, _⟩ := inv.fits b live
  exact ⟨x, member, start⟩

/-- The blocks left after a deallocation are those of the slots left. -/
theorem live_release (inv : w.Inv cls a) {b : Block ι} {x : Slot} (live : b ∈ w.live)
    (owner : b.owner = i) (slot : x ∈ (a i).live) (start : slotAddr w.chunks i x = b.ptr) :
    (((w.pushed cls i b.ptr).liveOf i).map Block.ptr).Perm
      (((a i).release x).live.map (slotAddr w.chunks i)) := by
  obtain ⟨c, before, later, ownerC, ptrC, split, erased⟩ := pushed_split cls live owner
  have all := inv.live i
  rw [liveOf, split] at all
  rw [liveOf, erased]
  simp only [List.filter_append, List.filter_cons, ownerC, decide_true, if_true, List.map_append,
    List.map_cons, ptrC, ← start] at all ⊢
  exact (List.perm_middle.symm.trans
    (all.trans ((FreeStore.perm_release slot).map _))).cons_inv

/-- Taking a live block back keeps the invariant. -/
theorem pushed (inv : w.Inv cls a) {b : Block ι} {x : Slot} (live : b ∈ w.live)
    (owner : b.owner = i) (slot : x ∈ (a i).live) (start : slotAddr w.chunks i x = b.ptr) :
    (w.pushed cls i b.ptr).Inv cls (Function.update a i ((a i).release x)) := by
  have inside := inv.link_within (Or.inl slot)
  rw [start] at inside
  -- the link of the block misses every free slot
  have agree : ∀ j, ∀ y ∈ (a j).free,
      Machine.AgreeOn (slotSpan w.chunks j y) w.machine (w.pushed cls i b.ptr).machine := by
    intro j y free
    have other : (i, x) ≠ (j, y) := by
      intro same
      obtain ⟨rfl, rfl⟩ := Prod.mk.inj same
      exact (inv.sound _).not_both (distinct_chunkSlots _) slot free
    refine (Machine.wrote_storePtr _ _ _).agreeOn fun p member => ?_
    rw [List.mem_singleton.mp member]
    exact ((inv.separate (Or.inl slot) (Or.inr free) other).mono inside
      (.refl _)).separate
  have rest := inv.live_release live owner slot start
  refine
    { sound := inv.sound_update ((inv.sound i).release slot), count := inv.count_update rfl,
      chain := ?_, live := ?_, fits := ?_, blocks := inv.blocks.sublist List.eraseP_sublist,
      apart := inv.apart, wf := inv.wf }
  · intro j
    rcases eq_or_ne j i with rfl | other
    · have kept := inv.chain_congr (agree j)
      have nonzero := inv.slotAddr_pos (Or.inl slot)
      simp only [Function.update_self, FreeStore.release, List.map_cons, World.pushed, start]
        at kept ⊢
      apply Chain.cons (by omega)
      rw [Machine.loadPtr_storePtr_same _ _ inv.freeStore_lt]
      exact kept
    · have kept := inv.chain_congr (agree j)
      simp only [World.pushed, Function.update_of_ne other] at kept ⊢
      exact kept
  · intro j
    rcases eq_or_ne j i with rfl | other
    · rw [Function.update_self]
      exact rest
    · rw [Function.update_of_ne other]
      obtain ⟨c, before, later, ownerC, _, split, erased⟩ := pushed_split cls live owner
      have all := inv.live j
      rw [liveOf, split] at all
      rw [liveOf, erased]
      simp only [List.filter_append, List.filter_cons, ownerC, other.symm, decide_false] at all ⊢
      exact all
  · intro c member
    have old := List.mem_of_mem_eraseP member
    obtain ⟨y, slotC, startC, length⟩ := inv.fits c old
    refine ⟨y, ?_, startC, length⟩
    rcases eq_or_ne c.owner i with ownerC | other
    · rw [ownerC] at slotC startC ⊢
      rw [Function.update_self]
      have remains : c.ptr ∈ ((a i).release x).live.map (slotAddr w.chunks i) :=
        rest.mem_iff.mp (List.mem_map_of_mem (List.mem_filter.mpr ⟨member, by simpa using ownerC⟩))
      obtain ⟨z, memberZ, startZ⟩ := List.mem_map.mp remains
      have same : z = y := inv.slot_inj (Or.inl (FreeStore.mem_of_mem_release memberZ)) (Or.inl slotC)
        (startZ.trans startC.symm)
      exact same ▸ memberZ
    · rwa [Function.update_of_ne other]

/-- Whatever a client does to the bytes of its own block keeps the invariant. -/
theorem rewritten (inv : w.Inv cls a) {b : Block ι} (live : b ∈ w.live) {m : Machine}
    (outside : ∀ x, x ∉ b.span → m.mem x = w.machine.mem x) :
    ({ w with machine := m } : World ι).Inv cls a := by
  obtain ⟨x, slot, _, within⟩ := inv.block_within live
  refine { inv with chain := fun j => inv.chain_congr fun y free p inside => ?_ }
  have other : (b.owner, x) ≠ (j, y) := by
    intro same
    obtain ⟨rfl, rfl⟩ := Prod.mk.inj same
    exact (inv.sound _).not_both (distinct_chunkSlots _) slot free
  have apart := inv.separate (Or.inl slot) (Or.inr free) other
  exact outside p fun hit => apart.separate p (within.mem hit) inside

/-- A client's write inside a live block keeps the invariant. -/
theorem written (inv : w.Inv cls a) {p : Nat} (v : UInt8)
    (inside : ∃ b ∈ w.live, p ∈ b.span) :
    ({ w with machine := w.machine.writeByte p v } : World ι).Inv cls a := by
  obtain ⟨b, live, inside⟩ := inside
  refine inv.rewritten live fun x outside => Mem.setByte_other _ v fun same => outside ?_
  rwa [same]

end Inv

end World

end TorchTest.FixedPool
