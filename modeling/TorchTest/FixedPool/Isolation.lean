import TorchTest.FixedPool.Partition

/-!
# Pools that share a memory do not interfere

An object's answers depend on its own calls only: by `run_refines` the slots it
returns are those of its abstract store, which sees neither the other objects,
nor the clients' writes, nor the addresses the system chose. So the object
answers as it would alone (`isolated_of_run`). The run alone exists: it is made
of the object's own events with the same answers of the system (`Solo`).

That no call touches another live block is the other half of the statement, and
comes from `Inv.step_wrote`. Both need the bound on `CHUNK * size`; without it a
block runs into the chunk of another object, which threads its links through it
(`clobbered_block_of_wrapped_chunk`).
-/

namespace TorchTest.FixedPool

variable {ι : Type}

namespace World

variable {cls : ι → PoolClass} {s : ι → Nat} {w w' : World ι} {a a' : ι → FreeStore Slot}
  {e : Event ι} {es : List (Event ι)} {i j : ι}

/-- The chunk added belongs to the object called. -/
theorem on_of_mem_added {c : Chunk ι} (member : c ∈ w.added cls e) : e.On c.owner := by
  cases e with
  | allocate i size answer =>
    cases answer with
    | none => cases member
    | some base =>
      by_cases free : w.freeStore i = 0
      · rw [added, if_pos free, List.mem_singleton] at member
        rw [member]
        rfl
      · rw [added, if_neg free] at member
        cases member
  | deallocate i p => cases member
  | write p v => cases member

theorem on_unique (left : e.On i) (right : e.On j) : i = j := by
  cases e with
  | allocate k size answer => exact (left : k = i).symm.trans right
  | deallocate k p => exact (left : k = i).symm.trans right
  | write p v => exact left.elim

variable [DecidableEq ι]

/-! ## The run of one object alone -/

/-- The calls made on the object `i`, its blocks named by chunk and slot number. -/
def calls (cls : ι → PoolClass) (i : ι) (w : World ι) (es : List (Event ι)) :
    List (FreeStore.Call Slot) :=
  (transcript cls i w es).map Prod.fst

/-- What these calls returned, by chunk and slot number. -/
def returns (cls : ι → PoolClass) (i : ι) (w : World ι) (es : List (Event ι)) :
    List (Option Slot) :=
  (transcript cls i w es).map Prod.snd

/-- `w'` holds the object `i` of `w` and nothing else. -/
structure Solo (cls : ι → PoolClass) (s : ι → Nat) (i : ι) (w w' : World ι)
    (a a' : ι → FreeStore Slot) : Prop where
  shared : w.FixedInv cls s a
  alone : w'.FixedInv cls s a'
  store : a' i = a i
  chunks : w'.chunks = w.chunksOf i

namespace Solo

theorem chunksOf_eq (solo : Solo cls s i w w' a a') : w'.chunksOf i = w.chunksOf i := by
  rw [chunksOf, solo.chunks, chunksOf, List.filter_filter]
  simp

theorem slotAddr_eq (solo : Solo cls s i w w' a a') (x : Slot) :
    slotAddr w'.chunks i x = slotAddr w.chunks i x := by
  have same := solo.chunksOf_eq
  unfold chunksOf at same
  rw [slotAddr, slotAddr, slotSpan, slotSpan, same]

theorem slotOf_eq (solo : Solo cls s i w w' a a') (p : Nat) :
    slotOf (cls i).chunk w'.chunks i p = slotOf (cls i).chunk w.chunks i p := by
  have same := solo.chunksOf_eq
  unfold chunksOf at same
  rw [slotOf, slotOf, same]
  simp only [solo.slotAddr_eq]

theorem freeStore_iff (solo : Solo cls s i w w' a a') : w'.freeStore i = 0 ↔ w.freeStore i = 0 := by
  rw [← solo.alone.inv.free_eq_nil_iff, ← solo.shared.inv.free_eq_nil_iff, solo.store]

/-- Both worlds add the same chunk for an event of the object, and it is the object's. -/
theorem added_eq (solo : Solo cls s i w w' a a') (on : e.On i) :
    w'.added cls e = (w.added cls e).filter (·.owner = i) := by
  have own : (w.added cls e).filter (·.owner = i) = w.added cls e :=
    List.filter_eq_self.mpr fun c member =>
      decide_eq_true (on_unique (on_of_mem_added member) on)
  rw [own]
  cases e with
  | allocate j n answer =>
    obtain rfl : j = i := on
    cases answer with
    | none => rfl
    | some base => simp only [added, solo.freeStore_iff]
  | deallocate j p => rfl
  | write p v => rfl

/-- An event of the object is valid in its own world as well. -/
theorem valid (solo : Solo cls s i w w' a a') (valid : w.Valid cls s e) (on : e.On i) :
    w'.Valid cls s e := by
  rcases valid with ⟨system, granted, client, size⟩
  cases e with
  | allocate j n answer =>
    obtain rfl : j = i := on
    refine ⟨?_, ?_, True.intro, size⟩
    · cases answer with
      | none => exact True.intro
      | some base =>
        intro none
        rcases system (solo.freeStore_iff.mp none) with ⟨nonzero, bound, apart⟩
        refine ⟨nonzero, bound, fun c member => apart c ?_⟩
        rw [solo.chunks] at member
        exact List.mem_of_mem_filter member
    · cases answer with
      | none => exact fun none => granted (solo.freeStore_iff.mp none)
      | some base => exact True.intro
  | deallocate j p =>
    obtain rfl : j = i := on
    rcases client with ⟨b, live, owner, rfl⟩
    rcases solo.shared.inv.exists_slot live owner with ⟨x, slot, start⟩
    rw [← solo.store] at slot
    have block : b.ptr ∈ (w'.liveOf j).map Block.ptr := by
      rw [(solo.alone.inv.live j).mem_iff, ← start, ← solo.slotAddr_eq]
      exact List.mem_map_of_mem slot
    rcases List.mem_map.mp block with ⟨c, member, ptr⟩
    rcases List.mem_filter.mp member with ⟨liveC, ownerC⟩
    exact ⟨True.intro, True.intro, ⟨c, liveC, of_decide_eq_true ownerC, ptr⟩, True.intro⟩
  | write p v => exact on.elim

/-- An event of another object, or a write, does not concern the world of `i`. -/
theorem skip (solo : Solo cls s i w w' a a') (serves : ∀ i, (cls i).Serves (s i))
    (valid : w.Valid cls s e) (off : ¬ e.On i) :
    w.entry cls i e = none ∧ ∃ b, Solo cls s i (w.step cls e).1 w' b a' := by
  have allowed := allowed_of_valid solo.shared serves valid
  have silent : w.entry cls i e = none := by
    cases e with
    | allocate j n answer => exact if_neg off
    | deallocate j p => exact if_neg off
    | write p v => rfl
  rcases solo.shared.inv.step allowed with ⟨b, inv, entries⟩
  have store : b i = a i := by
    rcases entries i with ⟨_, kept⟩ | ⟨c, call, _⟩
    · exact kept
    · rw [silent] at call
      cases call
  rcases solo.shared.step serves valid with ⟨_, fixed⟩
  have others : (w.added cls e).filter (·.owner = i) = [] :=
    List.filter_eq_nil_iff.mpr fun c member own =>
      off (of_decide_eq_true own ▸ on_of_mem_added member)
  refine ⟨silent, b, ⟨inv, fixed.strides, fixed.sizes⟩, solo.alone, solo.store.trans store.symm, ?_⟩
  rw [chunksOf, chunks_step allowed, List.filter_append, others, List.append_nil]
  exact solo.chunks

/-- An event of the object makes the same call with the same answer in both worlds. -/
theorem both (solo : Solo cls s i w w' a a') (serves : ∀ i, (cls i).Serves (s i))
    (valid : w.Valid cls s e) (on : e.On i) :
    w'.entry cls i e = w.entry cls i e ∧
      ∃ b b', Solo cls s i (w.step cls e).1 (w'.step cls e).1 b b' := by
  have valid' := solo.valid valid on
  have allowed := allowed_of_valid solo.shared serves valid
  have allowed' := allowed_of_valid solo.alone serves valid'
  rcases solo.shared.inv.step allowed with ⟨b, inv, entries⟩
  rcases solo.alone.inv.step allowed' with ⟨b', inv', entries'⟩
  rcases solo.shared.step serves valid with ⟨_, fixed⟩
  rcases solo.alone.step serves valid' with ⟨_, fixed'⟩
  -- the entry exists and names the same call on both sides
  have sameCall : (w'.entry cls i e).map Prod.fst = (w.entry cls i e).map Prod.fst := by
    cases e with
    | allocate j n answer => simp [entry]
    | deallocate j p => simp [entry, solo.slotOf_eq]
    | write p v => rfl
  have stores : w'.entry cls i e = w.entry cls i e ∧ b' i = b i := by
    rcases entries i with ⟨silent, kept⟩ | ⟨c, call, moved⟩
    · rcases entries' i with ⟨silent', kept'⟩ | ⟨c', call', _⟩
      · exact ⟨silent'.trans silent.symm, (kept'.trans solo.store).trans kept.symm⟩
      · rw [silent, call'] at sameCall
        cases sameCall
    · rcases entries' i with ⟨silent', _⟩ | ⟨c', call', moved'⟩
      · rw [silent', call] at sameCall
        cases sameCall
      · rw [call', call] at sameCall
        obtain rfl : c' = c := Option.some.inj sameCall
        rw [call', call, moved', moved, solo.store]
        exact ⟨rfl, rfl⟩
  refine ⟨stores.1, b, b', ⟨inv, fixed.strides, fixed.sizes⟩, ⟨inv', fixed'.strides, fixed'.sizes⟩,
    stores.2, ?_⟩
  rw [chunksOf, chunks_step allowed, chunks_step allowed', solo.chunks, List.filter_append,
    solo.added_eq on, chunksOf]

/-- The object's own events are a valid run of it alone, with the same transcript. -/
theorem run (solo : Solo cls s i w w' a a') (serves : ∀ i, (cls i).Serves (s i))
    (run : Admissible (step cls) (Valid cls s) w es) :
    Admissible (step cls) (Valid cls s) w' (es.filter (·.On i)) ∧
      transcript cls i w' (es.filter (·.On i)) = transcript cls i w es := by
  induction es generalizing w w' a a' with
  | nil => exact ⟨True.intro, rfl⟩
  | cons e es ih =>
    by_cases on : e.On i
    · rcases solo.both serves run.1 on with ⟨same, b, b', next⟩
      rcases ih next run.2 with ⟨valid, rest⟩
      rw [List.filter_cons_of_pos (by simpa using on)]
      exact ⟨⟨solo.valid run.1 on, valid⟩, by rw [transcript, transcript, same, rest]⟩
    · rcases solo.skip serves run.1 on with ⟨silent, b, next⟩
      rcases ih next run.2 with ⟨valid, rest⟩
      rw [List.filter_cons_of_neg (by simpa using on)]
      exact ⟨valid, by rw [rest, transcript, silent]; rfl⟩

end Solo

theorem solo_init (cls : ι → PoolClass) (s : ι → Nat) (i : ι) (m m' : Machine) :
    Solo cls s i (init m) (init m') (fun _ => FreeStore.empty) fun _ => FreeStore.empty :=
  ⟨fixedInv_init cls s m, fixedInv_init cls s m', rfl, rfl⟩

end World

variable [DecidableEq ι]

open World in
/-- Every object of a shared run returns, call by call, the slots it returns in
any run of the same calls alone; such a run exists, over any memory and with
the same answers of the system; and no call changes a live block other than the
one it takes back. -/
theorem isolated_of_run {cls : ι → PoolClass} {s : ι → Nat}
    (sized : ∀ i, (cls i).kind = .allocator ∨ (cls i).kind = .myAllocator)
    (large : ∀ i, pointerSize ≤ s i) (nowrap : ∀ i, (cls i).chunk * s i < addressSpace)
    (m : Machine) (es : List (Event ι)) (run : Admissible (step cls) (Valid cls s) (init m) es)
    (i : ι) :
    (∀ m' es', Admissible (step cls) (Valid cls s) (init m') es' → (∀ e ∈ es', e.On i) →
        calls cls i (init m') es' = calls cls i (init m) es →
        returns cls i (init m') es' = returns cls i (init m) es) ∧
    (∀ m', Admissible (step cls) (Valid cls s) (init m') (es.filter (·.On i)) ∧
      calls cls i (init m') (es.filter (·.On i)) = calls cls i (init m) es) ∧
    ∀ e, (after (step cls) (init m) es).Valid cls s e → e.IsCall →
      ∀ b ∈ (after (step cls) (init m) es).live, e ≠ .deallocate b.owner b.ptr →
        Machine.AgreeOn b.span (after (step cls) (init m) es).machine
          ((after (step cls) (init m) es).step cls e).1.machine := by
  have serves : ∀ i, (cls i).Serves (s i) := fun i =>
    PoolClass.serves_of_sized (sized i) (large i) (nowrap i)
  refine ⟨fun m' es' alone _ same => ?_, fun m' => ?_, fun e valid call b live kept => ?_⟩
  · rcases run_refines (allowed_of_run serves run) (inv_init cls m) with ⟨_, _, shared⟩
    rcases run_refines (allowed_of_run serves alone) (inv_init cls m') with ⟨_, _, solo⟩
    have answers := (shared i).2
    have answers' := (solo i).2
    unfold calls at same
    rw [same] at answers'
    exact answers'.trans answers.symm
  · rcases (solo_init cls s i m m').run serves run with ⟨valid, same⟩
    exact ⟨valid, congrArg (List.map Prod.fst) same⟩
  · obtain ⟨a, fixed⟩ := run.invariant (I := fun w => ∃ a, w.FixedInv cls s a)
      ⟨_, fixedInv_init cls s m⟩ fun w e ⟨a, fixed⟩ valid => fixed.step serves valid
    exact fixed.inv.step_frame (allowed_of_valid fixed serves valid) call live kept

open World in
/-- `Foo` answers among the calls of `Goo` and its own client's writes as it does
alone, and taking the `Foo` back changes nothing in the `Goo`. -/
theorem isolated_of_run_foo_goo :
    let cls := fun _ : Bool => PoolClass.demoAllocator
    let es : List (Event Bool) :=
      [.allocate false 40 (some 4096), .allocate true 48 (some 8192), .write 4100 7,
        .allocate false 40 none, .deallocate false 4096, .allocate false 40 none]
    returns cls false (init Machine.zero) (es.filter (·.On false)) =
        returns cls false (init Machine.zero) es ∧
      Machine.AgreeOn ⟨8192, 48⟩ (after (step cls) (init Machine.zero) es).machine
        ((after (step cls) (init Machine.zero) es).step cls (.deallocate false 4096)).1.machine := by
  intro cls es
  obtain ⟨same, alone, frame⟩ := @isolated_of_run Bool _ cls fooGooSize (by decide)
    (by decide) (by decide) Machine.zero es (by decide +kernel) false
  refine ⟨same _ _ (alone Machine.zero).1 (by decide) (alone Machine.zero).2, ?_⟩
  exact frame (.deallocate false 4096) (by decide +kernel) True.intro ⟨true, 8192, 48⟩
    (by decide +kernel) (by decide)

open World in
/-- With `CHUNK = 4` and blocks of `2 ^ 62` bytes the chunk has 0 bytes, and the block returned
covers the chunk that another object gets next: its refill writes its links in the live
block. -/
theorem clobbered_block_of_wrapped_chunk :
    let cls := fun _ : Bool => PoolClass.testMyAllocator
    let w := after (step cls) (init Machine.zero) [.allocate false (2 ^ 62) (some 4096)]
    let e : Event Bool := .allocate true 8 (some 4128)
    (∀ i, pointerSize ≤ wrappingSize i) ∧
      Admissible (step cls) (Valid cls wrappingSize) (init Machine.zero)
        [.allocate false (2 ^ 62) (some 4096), e] ∧
      ⟨false, 4096, 2 ^ 62⟩ ∈ w.live ∧
      ¬ Machine.AgreeOn ⟨4096, 2 ^ 62⟩ w.machine (w.step cls e).1.machine := by
  refine ⟨by decide, by decide +kernel, by decide +kernel, fun agree => ?_⟩
  exact absurd (agree 4128 (by decide)) (by decide +kernel)

end TorchTest.FixedPool
