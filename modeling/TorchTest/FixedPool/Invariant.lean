import TorchTest.FixedPool.Threading
import TorchTest.FixedPool.World

/-!
# The pools refine abstract stores of slots

`World.Inv cls w a` ties a world to one `FreeStore` of numbered slots per
object: the list in memory visits the addresses of the free slots, the live
blocks start at the addresses of the live slots, and the chunks are disjoint
regions that hold their slots. The invariant is kept by

* `Inv.grown`, a refill that threads a granted chunk;
* `Inv.popped` and `Inv.pushed`, the two ends of the list;
* `Inv.written`, a client's write in its own block.

`Inv.separate` is the separation all four rest on: two slots of any objects are
the same slot or lie one before the other.
-/

namespace TorchTest.FixedPool

/-! ## One call of each class -/

/-- A size that a refill can thread: a slot has exactly this size and room for
its link, and `CHUNK * size` does not wrap. -/
def PoolClass.Serves (K : PoolClass) (size : Nat) : Prop :=
  K.stride size = size ∧ K.link + pointerSize ≤ size ∧ K.chunk * size < addressSpace

instance (K : PoolClass) (size : Nat) : Decidable (K.Serves size) :=
  inferInstanceAs (Decidable (_ ∧ _ ∧ _))

theorem PoolClass.Serves.pos {K : PoolClass} {size : Nat} (serves : K.Serves size) : 0 < size :=
  (Nat.add_pos_right _ pointerSize_pos).trans_le serves.2.1

/-- The class threads a size that is the distance of its slots, has room for a link
and does not wrap: the link of `ScreenV1`, at offset 8, has room in every `Screen`. -/
theorem PoolClass.serves_of_fixed {K : PoolClass} {size : Nat} (own : K.stride size = size)
    (large : pointerSize ≤ size) (nowrap : K.chunk * size < addressSpace) : K.Serves size := by
  refine ⟨own, ?_, nowrap⟩
  rcases K with ⟨kind, C, positive, small⟩
  cases kind with
  | allocator => exact (Nat.zero_add _).trans_le large
  | myAllocator => exact (Nat.zero_add _).trans_le large
  | screenV1 => exact own.le
  | screenV2 => exact own.le

theorem PoolClass.deallocate_eq (K : PoolClass) (ptr freeStore : Nat) (m : Machine) :
    K.deallocate ptr freeStore m = pushHead K.link ptr freeStore m := by
  rcases K with ⟨kind, C, positive, small⟩
  cases kind <;> rfl

/-- With a free block at hand every class takes the head of its list. -/
theorem PoolClass.allocate_of_ne_zero (K : PoolClass) {freeStore : Nat} (m : Machine)
    (size : Nat) (answer : Option Nat) (some : freeStore ≠ 0) :
    K.allocate freeStore m size answer = popHead K.link freeStore m none := by
  rcases K with ⟨kind, C, positive, small⟩
  cases kind
  · exact if_neg some
  · exact if_neg some
  · exact if_neg some
  · exact if_neg some

/-- A granted refill threads the whole chunk and takes its first slot. -/
theorem PoolClass.allocate_of_granted (K : PoolClass) {size base : Nat} (m : Machine)
    (serves : K.Serves size) (bound : base + K.chunk * size < addressSpace) :
    K.allocate 0 m size (some base) =
      popHead K.link base (threaded K.link size (K.chunk - 1) base m) (some (K.chunk * size)) := by
  have positive := serves.pos
  rcases serves with ⟨slot, room, wrap⟩
  have chunk : SizeT.mul K.chunk size = K.chunk * size := SizeT.mul_eq wrap
  have slots : (K.chunk - 1) * size + size = K.chunk * size := by
    rw [← Nat.succ_mul, Nat.succ_eq_add_one, Nat.sub_add_cancel K.chunk_pos]
  have inside : base + (K.chunk - 1) * size < addressSpace := by omega
  have last : SizeT.add base (SizeT.mul (K.chunk - 1) size) = base + (K.chunk - 1) * size := by
    rw [SizeT.mul_eq (by omega), SizeT.add_eq inside]
  have enough : K.chunk - 1 < K.chunk := Nat.sub_lt K.chunk_pos one_pos
  rcases K with ⟨kind, C, pos, small⟩
  simp only at chunk inside last enough
  cases kind with
  | allocator =>
    change allocateSized C (malloc (some base)) 0 m size = _
    simp only [allocateSized, malloc, Option.getD_some, if_pos, chunk]
    rw [threadCounted_eq m inside]
    rfl
  | myAllocator =>
    change allocateSized C (newChar (some base)) 0 m size = _
    simp only [allocateSized, newChar, if_pos, chunk]
    rw [threadCounted_eq m inside]
    rfl
  | screenV1 =>
    have width : size = 16 := slot.symm
    subst width
    change screenNew 16 8 C 0 m 16 (some base) = _
    simp only [screenNew, newChar, if_pos, chunk, last]
    rw [threadTo_eq m positive inside enough]
    rfl
  | screenV2 =>
    have width : size = 8 := slot.symm
    subst width
    change screenNew 8 0 C 0 m 8 (some base) = _
    simp only [screenNew, newChar, if_pos, chunk, last]
    rw [threadTo_eq m positive inside enough]
    rfl

/-! ## Slots -/

variable {ι : Type}

/-- A chunk that holds its slots, each with room for a link. -/
structure Chunk.Wf (cls : ι → PoolClass) (c : Chunk ι) : Prop where
  base_pos : 0 < c.base
  stop_lt : c.region.stop < addressSpace
  length_eq : c.length = (cls c.owner).chunk * c.stride
  room : (cls c.owner).link + pointerSize ≤ c.stride

theorem Chunk.Wf.stride_pos {cls : ι → PoolClass} {c : Chunk ι} (wf : c.Wf cls) : 0 < c.stride :=
  (Nat.add_pos_right _ pointerSize_pos).trans_le wf.room

theorem Chunk.Wf.length_pos {cls : ι → PoolClass} {c : Chunk ι} (wf : c.Wf cls) : 0 < c.length :=
  wf.length_eq ▸ Nat.mul_pos (cls c.owner).chunk_pos wf.stride_pos

/-- A slot number below the chunk constant stays inside its chunk. -/
theorem Chunk.Wf.within {cls : ι → PoolClass} {c : Chunk ι} (wf : c.Wf cls) {j : Nat}
    (bound : j < (cls c.owner).chunk) :
    Interval.Within ⟨c.base + j * c.stride, c.stride⟩ c.region := by
  have last := Nat.mul_le_mul_right c.stride bound
  rw [Nat.succ_mul, ← wf.length_eq] at last
  exact ⟨Nat.le_add_right _ _, by
    simp only [Interval.stop, Chunk.region]
    omega⟩

variable [DecidableEq ι]

/-- The bytes of a slot, by the list of its owner's chunks. -/
def slotSpan (chunks : List (Chunk ι)) (i : ι) (x : Slot) : Interval :=
  match (chunks.filter (·.owner = i))[x.1]? with
  | some c => ⟨c.base + x.2 * c.stride, c.stride⟩
  | none => ⟨0, 0⟩

/-- The address of a slot. -/
def slotAddr (chunks : List (Chunk ι)) (i : ι) (x : Slot) : Nat := (slotSpan chunks i x).start

/-- The world `w` is what the abstract stores `a` look like in memory. -/
structure World.Inv (cls : ι → PoolClass) (w : World ι) (a : ι → FreeStore Slot) : Prop where
  sound : ∀ i, (a i).Sound (chunkSlots (cls i).chunk)
  count : ∀ i, (a i).chunks = (w.chunksOf i).length
  chain : ∀ i, Chain (fun p => w.machine.loadPtr (p + (cls i).link)) (w.freeStore i)
    ((a i).free.map (slotAddr w.chunks i))
  live : ∀ i, ((w.liveOf i).map Block.ptr).Perm ((a i).live.map (slotAddr w.chunks i))
  fits : ∀ b ∈ w.live, ∃ x ∈ (a b.owner).live,
    slotAddr w.chunks b.owner x = b.ptr ∧ b.size ≤ (slotSpan w.chunks b.owner x).length
  blocks : w.live.Pairwise fun b c => Interval.Apart b.span c.span
  apart : w.chunks.Pairwise fun c d => Interval.Apart c.region d.region
  wf : ∀ c ∈ w.chunks, c.Wf cls

/-- A valid slot lies in one of its owner's chunks. -/
theorem slotSpan_of_lt {chunks : List (Chunk ι)} {i : ι} {x : Slot}
    (bound : x.1 < (chunks.filter (·.owner = i)).length) :
    ∃ c ∈ chunks, c.owner = i ∧ (chunks.filter (·.owner = i))[x.1]? = some c ∧
      slotSpan chunks i x = ⟨c.base + x.2 * c.stride, c.stride⟩ := by
  have member := List.getElem_mem bound
  rw [List.mem_filter, decide_eq_true_eq] at member
  have found := List.getElem?_eq_getElem bound
  exact ⟨_, member.1, member.2, found, by rw [slotSpan, found]⟩

/-- Chunks granted later do not move a slot. -/
theorem slotSpan_append {chunks more : List (Chunk ι)} {i : ι} {x : Slot}
    (bound : x.1 < (chunks.filter (·.owner = i)).length) :
    slotSpan (chunks ++ more) i x = slotSpan chunks i x := by
  rw [slotSpan, slotSpan, List.filter_append, List.getElem?_append_left bound]

namespace World.Inv

variable {cls : ι → PoolClass} {w : World ι} {a : ι → FreeStore Slot} {i j : ι} {x y : Slot}

/-- A known slot belongs to a chunk of its object. -/
theorem slot_lt (inv : w.Inv cls a) (known : x ∈ (a i).live ∨ x ∈ (a i).free) :
    x.1 < (w.chunks.filter (·.owner = i)).length ∧ x.2 < (cls i).chunk := by
  have member := (inv.sound i).mem_slots known
  rw [mem_slots_chunkSlots, inv.count i] at member
  exact member

/-- A known slot lies inside a chunk of its object. -/
theorem slot_within (inv : w.Inv cls a) (known : x ∈ (a i).live ∨ x ∈ (a i).free) :
    ∃ c ∈ w.chunks, c.owner = i ∧ Interval.Within (slotSpan w.chunks i x) c.region ∧
      (slotSpan w.chunks i x).length = c.stride ∧ c.Wf cls := by
  rcases inv.slot_lt known with ⟨chunk, number⟩
  rcases slotSpan_of_lt chunk with ⟨c, member, rfl, _, span⟩
  have wf := inv.wf c member
  exact ⟨c, member, rfl, span ▸ wf.within number, by rw [span], wf⟩

/-- Two different slots lie one before the other. -/
theorem separate (inv : w.Inv cls a) (left : x ∈ (a i).live ∨ x ∈ (a i).free)
    (right : y ∈ (a j).live ∨ y ∈ (a j).free) (other : (i, x) ≠ (j, y)) :
    Interval.Apart (slotSpan w.chunks i x) (slotSpan w.chunks j y) := by
  rcases inv.slot_lt left with ⟨chunkX, numberX⟩
  rcases inv.slot_lt right with ⟨chunkY, numberY⟩
  rcases slotSpan_of_lt chunkX with ⟨c, memberC, ownerC, foundC, spanC⟩
  rcases slotSpan_of_lt chunkY with ⟨d, memberD, ownerD, foundD, spanD⟩
  have withinC := (inv.wf c memberC).within (j := x.2) (by rw [ownerC]; exact numberX)
  have withinD := (inv.wf d memberD).within (j := y.2) (by rw [ownerD]; exact numberY)
  rw [spanC, spanD]
  by_cases same : c = d
  · -- one chunk: the slot numbers differ
    subst same
    subst ownerC
    subst ownerD
    have chunks : x.1 = y.1 := by
      by_contra different
      have distinct := (inv.apart.filter (·.owner = c.owner))
      rw [List.pairwise_iff_getElem] at distinct
      rw [List.getElem?_eq_some_iff] at foundC foundD
      rcases foundC with ⟨boundX, atX⟩
      rcases foundD with ⟨boundY, atY⟩
      have positive : 0 < c.region.length := (inv.wf c memberC).length_pos
      rcases Nat.lt_or_gt_of_ne different with before | later
      · have self := distinct x.1 y.1 boundX boundY before
        rw [atX, atY] at self
        unfold Interval.Apart Interval.stop at self
        omega
      · have self := distinct y.1 x.1 boundY boundX later
        rw [atX, atY] at self
        unfold Interval.Apart Interval.stop at self
        omega
    have numbers : x.2 ≠ y.2 := fun equal => other (by rw [Prod.ext chunks equal])
    unfold Interval.Apart Interval.stop
    rcases Nat.lt_or_gt_of_ne numbers with before | later
    · have step := Nat.mul_le_mul_right c.stride before
      rw [Nat.succ_mul] at step
      exact Or.inl (by simp only; omega)
    · have step := Nat.mul_le_mul_right c.stride later
      rw [Nat.succ_mul] at step
      exact Or.inr (by simp only; omega)
  · have symm : Std.Symm fun c d : Chunk ι => Interval.Apart c.region d.region :=
      ⟨fun _ _ apart => apart.symm⟩
    exact (inv.apart.forall memberC memberD same).mono withinC withinD

/-- Slots of one object with one address are one slot. -/
theorem slot_inj (inv : w.Inv cls a) (left : x ∈ (a i).live ∨ x ∈ (a i).free)
    (right : y ∈ (a i).live ∨ y ∈ (a i).free)
    (same : slotAddr w.chunks i x = slotAddr w.chunks i y) : x = y := by
  by_contra different
  have apart := inv.separate left right fun pair => different (Prod.mk.inj pair).2
  rcases inv.slot_within left with ⟨c, _, _, _, lengthX, wfC⟩
  rcases inv.slot_within right with ⟨d, _, _, _, lengthY, wfD⟩
  have positiveC := wfC.stride_pos
  have positiveD := wfD.stride_pos
  unfold slotAddr at same
  unfold Interval.Apart Interval.stop at apart
  omega

/-- The link of a slot lies inside the slot. -/
theorem link_within (inv : w.Inv cls a) (known : x ∈ (a i).live ∨ x ∈ (a i).free) :
    Interval.Within ⟨slotAddr w.chunks i x + (cls i).link, pointerSize⟩
      (slotSpan w.chunks i x) := by
  rcases inv.slot_within known with ⟨c, _, rfl, _, length, wf⟩
  have room := wf.room
  refine ⟨Nat.le_add_right _ _, ?_⟩
  simp only [Interval.stop, slotAddr, length]
  omega

theorem slotAddr_pos (inv : w.Inv cls a) (known : x ∈ (a i).live ∨ x ∈ (a i).free) :
    0 < slotAddr w.chunks i x := by
  rcases inv.slot_within known with ⟨c, _, _, within, _, wf⟩
  exact wf.base_pos.trans_le within.1

theorem slotAddr_lt (inv : w.Inv cls a) (known : x ∈ (a i).live ∨ x ∈ (a i).free) :
    slotAddr w.chunks i x < addressSpace := by
  rcases inv.slot_within known with ⟨c, _, _, within, _, wf⟩
  have upper := within.2
  have bound := wf.stop_lt
  unfold slotAddr
  unfold Interval.stop at upper bound
  omega

/-- A live block lies at the start of a live slot. -/
theorem block_within (inv : w.Inv cls a) {b : Block ι} (live : b ∈ w.live) :
    ∃ x ∈ (a b.owner).live, slotAddr w.chunks b.owner x = b.ptr ∧
      Interval.Within b.span (slotSpan w.chunks b.owner x) := by
  rcases inv.fits b live with ⟨x, member, start, size⟩
  refine ⟨x, member, start, start.le, ?_⟩
  unfold slotAddr at start
  simp only [Interval.stop, Block.span]
  omega

end World.Inv

end TorchTest.FixedPool
