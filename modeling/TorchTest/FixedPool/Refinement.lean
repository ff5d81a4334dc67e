import TorchTest.FixedPool.Steps

/-!
# Runs of the pools are runs of the abstract stores

`Allowed` collects what the results below need of an event: the system grants
fresh chunks, the clients behave, and the sizes suit the pool (`Suits`). An
allowed event keeps the invariant and makes each abstract store take the call
that `entry` reads off the concrete one (`Inv.step`); `run_refines` is the same
over whole runs. A `transcript` is the list of an object's calls and answers in
terms of slots, so it does not mention addresses.
-/

namespace TorchTest.FixedPool

variable {ι : Type} [DecidableEq ι]

/-- The slot at an address, searched among all slots of the object. -/
def slotOf (C : Nat) (chunks : List (Chunk ι)) (i : ι) (p : Nat) : Option Slot :=
  (FreeStore.slots (chunkSlots C) (chunks.filter (·.owner = i)).length).find?
    fun x => slotAddr chunks i x = p

namespace World

/-- The sizes suit the pool: a refill asks for a size it can thread, and a
request served from the list asks for no more than the slots of the chunk that
the head of the list belongs to. -/
def Suits (cls : ι → PoolClass) (w : World ι) : Event ι → Prop
  | .allocate i size _ =>
      (w.freeStore i = 0 → (cls i).Serves size) ∧
        (w.freeStore i ≠ 0 →
          ∃ c ∈ w.chunks, c.owner = i ∧ w.freeStore i ∈ c.region ∧ size ≤ c.stride)
  | _ => True

/-- A well-behaved event: granted, by a valid client, with a size that suits. -/
structure Allowed (cls : ι → PoolClass) (w : World ι) (e : Event ι) : Prop where
  system : w.SystemOk cls e
  granted : w.Granted e
  client : w.ClientOk e
  suits : w.Suits cls e

/-- The call that an event makes on the object `i`, with the slot it returns. -/
def entry (cls : ι → PoolClass) (w : World ι) (i : ι) (e : Event ι) :
    Option (FreeStore.Call Slot × Option Slot) :=
  match e with
  | .allocate j _ _ =>
      if j = i then
        some (.allocate,
          (w.step cls e).2.ptr?.bind (slotOf (cls i).chunk (w.step cls e).1.chunks i))
      else none
  | .deallocate j p =>
      if j = i then
        (slotOf (cls i).chunk w.chunks i p).map fun x => (.release x, none)
      else none
  | .write _ _ => none

/-- The calls made on the object `i` in a run, with the slots returned. -/
def transcript (cls : ι → PoolClass) (i : ι) :
    World ι → List (Event ι) → List (FreeStore.Call Slot × Option Slot)
  | _, [] => []
  | w, e :: es => (entry cls w i e).toList ++ transcript cls i (w.step cls e).1 es

variable {cls : ι → PoolClass} {w : World ι} {a : ι → FreeStore Slot} {i j : ι} {e : Event ι}
  {es : List (Event ι)}

/-- The chunk that an allowed event adds, if any. -/
def added (cls : ι → PoolClass) (w : World ι) : Event ι → List (Chunk ι)
  | .allocate i size (some base) =>
      if w.freeStore i = 0 then
        [{ owner := i, base, length := (cls i).chunk * size, stride := size }]
      else []
  | _ => []

/-- The chunks after an allowed event. -/
theorem chunks_step (allowed : w.Allowed cls e) :
    (w.step cls e).1.chunks = w.chunks ++ w.added cls e := by
  cases e with
  | allocate i size answer =>
    by_cases free : w.freeStore i = 0
    · cases answer with
      | none => exact absurd free allowed.granted
      | some base =>
        have serves := allowed.suits.1 free
        have fresh := allowed.system free
        rw [SizeT.mul_eq serves.2.2] at fresh
        rw [step_allocate_of_granted free serves fresh.1 fresh.2.1, added, if_pos free]
        rfl
    · have kept : w.added cls (.allocate i size answer) = [] := by
        cases answer with
        | none => rfl
        | some base => exact if_neg free
      rw [step_allocate_of_ne_zero free, kept, List.append_nil]
      rfl
  | deallocate i p => exact (List.append_nil _).symm
  | write p v => exact (List.append_nil _).symm

/-- The empty world is the empty stores. -/
theorem inv_init (cls : ι → PoolClass) (m : Machine) :
    (init m : World ι).Inv cls fun _ => FreeStore.empty where
  sound _ := FreeStore.sound_empty
  count _ := rfl
  chain _ := .nil
  live _ := .nil
  fits _ member := nomatch member
  blocks := .nil
  apart := .nil
  wf _ member := nomatch member

namespace Inv

/-- The slot of a known address is found. -/
theorem slotOf_eq (inv : w.Inv cls a) {x : Slot} (known : x ∈ (a i).live ∨ x ∈ (a i).free) :
    slotOf (cls i).chunk w.chunks i (slotAddr w.chunks i x) = some x := by
  have member := (inv.sound i).mem_slots known
  rw [inv.count i] at member
  cases found : slotOf (cls i).chunk w.chunks i (slotAddr w.chunks i x) with
  | none =>
    have missing := List.find?_eq_none.mp found x member
    simp at missing
  | some y =>
    have same := List.find?_some found
    rw [decide_eq_true_eq] at same
    have memberY := List.mem_of_find?_eq_some found
    have knownY : y ∈ (a i).live ∨ y ∈ (a i).free := by
      rw [← List.mem_append, (inv.sound i).mem_iff, inv.count i]
      exact memberY
    exact congrArg some (inv.slot_inj knownY known same)

/-- A head slot has the stride of the chunk it lies in. -/
theorem head_room (inv : w.Inv cls a) {x : Slot} {c : Chunk ι} (known : x ∈ (a i).free)
    (member : c ∈ w.chunks) (inside : slotAddr w.chunks i x ∈ c.region) :
    (slotSpan w.chunks i x).length = c.stride := by
  rcases inv.slot_within (Or.inr known) with ⟨d, memberD, _, within, length, wf⟩
  have start : slotAddr w.chunks i x ∈ d.region :=
    within.mem ⟨le_refl _, Nat.lt_add_of_pos_right (length ▸ wf.stride_pos)⟩
  by_cases same : c = d
  · rw [same, length]
  · have symm : Std.Symm fun c d : Chunk ι => Interval.Apart c.region d.region :=
      ⟨fun _ _ apart => apart.symm⟩
    exact absurd start ((inv.apart.forall member memberD same).separate _ inside)

/-- A request served from the list. -/
theorem step_served (inv : w.Inv cls a) {size : Nat} {answer : Option Nat}
    (some : w.freeStore i ≠ 0)
    (suits : ∃ c ∈ w.chunks, c.owner = i ∧ w.freeStore i ∈ c.region ∧ size ≤ c.stride) :
    ∃ x, (w.step cls (.allocate i size answer)).1.Inv cls
        (Function.update a i ((a i).call (chunkSlots (cls i).chunk) .allocate).1) ∧
      ((a i).call (chunkSlots (cls i).chunk) .allocate).2 = Option.some x ∧
      w.step cls (.allocate i size answer) =
        (w.popped cls i size, .returned (slotAddr w.chunks i x) none) := by
  rcases inv.exists_head some with ⟨x, rest, free, head⟩
  rcases suits with ⟨c, member, _, inside, room⟩
  have known : x ∈ (a i).free := free ▸ List.mem_cons_self
  have length := inv.head_room known member (head ▸ inside)
  have call : (a i).call (chunkSlots (cls i).chunk) .allocate = (a i).take := by
    rw [FreeStore.call, FreeStore.refill_of_cons free]
  refine ⟨x, ?_, ?_, ?_⟩
  · rw [step_allocate_of_ne_zero some, call]
    exact inv.popped size free (room.trans_eq length.symm)
  · rw [call, FreeStore.take_of_cons free]
  · rw [step_allocate_of_ne_zero some, head]

/-- A request that refills the list from a granted chunk. -/
theorem step_refilled (inv : w.Inv cls a) {size base : Nat} (none : w.freeStore i = 0)
    (serves : (cls i).Serves size) (fresh : w.Fresh base ((cls i).chunk * size)) :
    ∃ x, (w.step cls (.allocate i size (some base))).1.Inv cls
        (Function.update a i ((a i).call (chunkSlots (cls i).chunk) .allocate).1) ∧
      ((a i).call (chunkSlots (cls i).chunk) .allocate).2 = some x ∧
      w.step cls (.allocate i size (some base)) =
        ((w.grown cls i size base).popped cls i size,
          .returned (slotAddr (w.grown cls i size base).chunks i x)
            (some ((cls i).chunk * size))) := by
  have empty := inv.free_eq_nil_iff.mpr none
  have grown := inv.grown serves fresh empty
  have nonzero : (w.grown cls i size base).freeStore i ≠ 0 := by
    simp only [World.grown, Function.update_self]
    exact fresh.1.ne'
  rcases grown.exists_head nonzero with ⟨x, rest, free, head⟩
  rw [Function.update_self] at free
  have known : x ∈ (Function.update a i ((a i).refill (chunkSlots (cls i).chunk)) i).free := by
    rw [Function.update_self, free]
    exact List.mem_cons_self
  have start : slotAddr (w.grown cls i size base).chunks i x = base := by
    rw [head]
    simp only [World.grown, Function.update_self]
  have chunk := Nat.mul_pos (cls i).chunk_pos serves.pos
  -- the head lies in the new chunk, the last of the list
  have inside : slotAddr (w.grown cls i size base).chunks i x ∈
      Chunk.region ⟨i, base, (cls i).chunk * size, size⟩ := by
    rw [start]
    exact ⟨le_refl _, Nat.lt_add_of_pos_right chunk⟩
  have length : (slotSpan (w.grown cls i size base).chunks i x).length = size :=
    grown.head_room known (List.mem_append_right _ List.mem_cons_self) inside
  have popped := grown.popped size (by rw [Function.update_self]; exact free) length.ge
  rw [Function.update_self, Function.update_idem] at popped
  refine ⟨x, ?_, ?_, ?_⟩
  · rw [step_allocate_of_granted none serves fresh.1 fresh.2.1]
    exact popped
  · rw [FreeStore.call, FreeStore.take_of_cons free]
  · rw [step_allocate_of_granted none serves fresh.1 fresh.2.1, start]

/-- An allowed request takes a slot of the abstract store and returns its
address; it asks the system for memory when no slot was free. -/
theorem step_allocate (inv : w.Inv cls a) {size : Nat} {answer : Option Nat}
    (allowed : w.Allowed cls (.allocate i size answer)) :
    ∃ x, (w.step cls (.allocate i size answer)).1.Inv cls
        (Function.update a i ((a i).call (chunkSlots (cls i).chunk) .allocate).1) ∧
      ((a i).call (chunkSlots (cls i).chunk) .allocate).2 = some x ∧
      (w.step cls (.allocate i size answer)).2 =
        .returned (slotAddr (w.step cls (.allocate i size answer)).1.chunks i x)
          (if (a i).free = [] then some ((cls i).chunk * size) else none) := by
  by_cases free : w.freeStore i = 0
  · obtain ⟨base, rfl⟩ : ∃ base, answer = some base := by
      cases answer with
      | none => exact absurd free allowed.granted
      | some base => exact ⟨base, rfl⟩
    have serves := allowed.suits.1 free
    have fresh := allowed.system free
    rw [SizeT.mul_eq serves.2.2] at fresh
    rcases inv.step_refilled free serves fresh with ⟨x, inv', taken, result⟩
    exact ⟨x, inv', taken, by rw [result, if_pos (inv.free_eq_nil_iff.mpr free)]; rfl⟩
  · rcases inv.step_served free (allowed.suits.2 free) with ⟨x, inv', taken, result⟩
    exact ⟨x, inv', taken, by rw [result, if_neg (mt inv.free_eq_nil_iff.mp free)]; rfl⟩

/-- An allowed event keeps the invariant, and every store takes the call of the
event's entry. -/
theorem step (inv : w.Inv cls a) (allowed : w.Allowed cls e) :
    ∃ a', (w.step cls e).1.Inv cls a' ∧ ∀ i,
      (w.entry cls i e = none ∧ a' i = a i) ∨
      ∃ c, w.entry cls i e = some (c, ((a i).call (chunkSlots (cls i).chunk) c).2) ∧
        a' i = ((a i).call (chunkSlots (cls i).chunk) c).1 := by
  cases e with
  | allocate k size answer =>
    rcases inv.step_allocate allowed with ⟨x, inv', taken, result⟩
    refine ⟨_, inv', fun i => ?_⟩
    rcases eq_or_ne k i with rfl | other
    · refine Or.inr ⟨.allocate, ?_, Function.update_self ..⟩
      have found := inv'.slotOf_eq (i := k) (x := x)
        (Or.inl (by rw [Function.update_self]; exact FreeStore.mem_live_of_taken taken))
      simp only [entry, if_true, result, Result.ptr?, Option.bind_some, found, taken]
    · exact Or.inl ⟨by simp [entry, other], Function.update_of_ne other.symm ..⟩
  | deallocate k p =>
    rcases allowed.client with ⟨b, live, owner, rfl⟩
    rcases inv.exists_slot live owner with ⟨x, slot, start⟩
    have found := inv.slotOf_eq (Or.inl slot)
    rw [start] at found
    refine ⟨_, by rw [step_deallocate]; exact inv.pushed live owner slot start, fun i => ?_⟩
    rcases eq_or_ne k i with rfl | other
    · exact Or.inr ⟨.release x, by simp [entry, found, FreeStore.call], Function.update_self ..⟩
    · exact Or.inl ⟨by simp [entry, other], Function.update_of_ne other.symm ..⟩
  | write p v => exact ⟨a, inv.written v allowed.client, fun i => Or.inl ⟨rfl, rfl⟩⟩

/-- The link of a slot misses every live block of another slot. -/
theorem link_apart (inv : w.Inv cls a) {x : Slot} {b : Block ι}
    (known : x ∈ (a i).live ∨ x ∈ (a i).free) (live : b ∈ w.live)
    (other : ∀ y ∈ (a b.owner).live, slotAddr w.chunks b.owner y = b.ptr → (i, x) ≠ (b.owner, y)) :
    Interval.Apart ⟨slotAddr w.chunks i x + (cls i).link, pointerSize⟩ b.span := by
  rcases inv.block_within live with ⟨y, slot, start, within⟩
  exact (inv.separate known (Or.inl slot) (other y slot start)).mono (inv.link_within known) within

/-- An allowed call stores links only, inside granted memory and outside every
live block but the one being deallocated. -/
theorem step_wrote (inv : w.Inv cls a) (allowed : w.Allowed cls e) (call : e.IsCall) :
    ∃ L, Machine.Wrote L w.machine (w.step cls e).1.machine ∧ ∀ p ∈ L,
      (∃ c ∈ (w.step cls e).1.chunks, Interval.Within ⟨p, pointerSize⟩ c.region) ∧
      ∀ b ∈ w.live, e ≠ .deallocate b.owner b.ptr → Interval.Apart ⟨p, pointerSize⟩ b.span := by
  cases e with
  | allocate k size answer =>
    by_cases free : w.freeStore k = 0
    · obtain ⟨base, rfl⟩ : ∃ base, answer = some base := by
        cases answer with
        | none => exact absurd free allowed.granted
        | some base => exact ⟨base, rfl⟩
      have serves := allowed.suits.1 free
      have fresh := allowed.system free
      rw [SizeT.mul_eq serves.2.2] at fresh
      rw [step_allocate_of_granted free serves fresh.1 fresh.2.1]
      refine ⟨_, wrote_threaded _, fun p member => ?_⟩
      have within := within_of_mem_links serves.2.1 member
      rw [Nat.sub_add_cancel (cls k).chunk_pos] at within
      refine ⟨⟨_, List.mem_append_right _ List.mem_cons_self, within⟩, fun b live _ => ?_⟩
      rcases inv.block_within live with ⟨x, slot, _, inside⟩
      rcases inv.slot_within (Or.inl slot) with ⟨c, memberC, _, slotWithin, _, _⟩
      exact (fresh.2.2 c memberC).mono within (inside.trans slotWithin)
    · rw [step_allocate_of_ne_zero free]
      exact ⟨[], Machine.Wrote.refl _, fun p member => nomatch member⟩
  | deallocate k p =>
    rcases allowed.client with ⟨b, live, owner, rfl⟩
    rcases inv.exists_slot live owner with ⟨x, slot, start⟩
    have inside := inv.link_within (Or.inl slot)
    rcases inv.slot_within (Or.inl slot) with ⟨c, member, _, within, _, _⟩
    rw [start] at inside
    rw [step_deallocate]
    refine ⟨_, Machine.wrote_storePtr _ _ _, fun q stored => ?_⟩
    rw [List.mem_singleton.mp stored, ← start]
    rw [← start] at inside
    refine ⟨⟨c, member, inside.trans within⟩, fun d liveD different => ?_⟩
    refine inv.link_apart (Or.inl slot) liveD fun y _ startY same => different ?_
    rcases Prod.mk.inj same with ⟨rfl, rfl⟩
    rw [← startY, start]
  | write p v => exact call.elim

/-- An allowed call changes no byte of a live block but the one being deallocated. -/
theorem step_frame (inv : w.Inv cls a) (allowed : w.Allowed cls e) (call : e.IsCall)
    {b : Block ι} (live : b ∈ w.live) (kept : e ≠ .deallocate b.owner b.ptr) :
    Machine.AgreeOn b.span w.machine (w.step cls e).1.machine := by
  rcases inv.step_wrote allowed call with ⟨L, wrote, apart⟩
  exact wrote.agreeOn fun p member => ((apart p member).2 b live kept).separate

/-- A known slot stays where it is. -/
theorem slotAddr_step (inv : w.Inv cls a) (allowed : w.Allowed cls e) {x : Slot}
    (known : x ∈ (a i).live ∨ x ∈ (a i).free) :
    slotAddr (w.step cls e).1.chunks i x = slotAddr w.chunks i x := by
  rw [chunks_step allowed]
  exact congrArg Interval.start (inv.slotSpan_append _ known)

end Inv

/-- Over an allowed run every object takes the calls of its transcript and gives
the answers of its abstract store. -/
theorem run_refines (run : Admissible (step cls) (Allowed cls) w es) (inv : w.Inv cls a) :
    ∃ a', (after (step cls) w es).Inv cls a' ∧ ∀ i,
      a' i = after (FreeStore.call (chunkSlots (cls i).chunk)) (a i)
        ((transcript cls i w es).map Prod.fst) ∧
      (transcript cls i w es).map Prod.snd =
        outputs (FreeStore.call (chunkSlots (cls i).chunk)) (a i)
          ((transcript cls i w es).map Prod.fst) := by
  induction es generalizing w a with
  | nil => exact ⟨a, inv, fun _ => ⟨rfl, rfl⟩⟩
  | cons e es ih =>
    rcases inv.step run.1 with ⟨b, invB, entries⟩
    rcases ih run.2 invB with ⟨a', final, rest⟩
    refine ⟨a', final, fun i => ?_⟩
    rcases rest i with ⟨stores, answers⟩
    rcases entries i with ⟨silent, kept⟩ | ⟨c, call, moved⟩
    · rw [transcript, silent]
      rw [kept] at stores answers
      exact ⟨stores, answers⟩
    · rw [transcript, call]
      rw [moved] at stores answers
      exact ⟨stores, congrArg (_ :: ·) answers⟩

end World

end TorchTest.FixedPool
