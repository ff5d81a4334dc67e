import TorchTest.PoolAlloc.Reuse

/-!
# The pool and its flags

Without `GLIBCXX_FORCE_NEW` the values of `_S_force_new` change, but nothing else in the
pool depends on them (`allocateChunk_withFlags`). So two pools that differ in their
flags only do the same, and the calls of a world can be followed on a pool with other
flags: here is what each of them does (`Inv.step_trivial` to `Inv.step_refill`), in terms of
the lines of the source.
-/

namespace TorchTest.PoolAlloc

namespace Pool

/-- The pool with other values of `_S_force_new`. -/
def withFlags (s : Pool) (f : ElemType → Int) : Pool := { s with forceNew := f }

variable {s : Pool} {f : ElemType → Int} {p n : Nat}

theorem push_withFlags (i p : Nat) :
    (s.withFlags f).push i p = (s.push i p).withFlags f := rfl

theorem setAside_withFlags : (s.withFlags f).setAside = s.setAside.withFlags f := by
  rw [setAside, setAside]
  by_cases some : 0 < SizeT.sub s.endFree s.startFree
  · have some' : 0 < SizeT.sub (s.withFlags f).endFree (s.withFlags f).startFree := some
    rw [if_pos some, if_pos some']
    exact push_withFlags _ _
  · have none' : ¬0 < SizeT.sub (s.withFlags f).endFree (s.withFlags f).startFree := some
    rw [if_neg some, if_neg none']

theorem reclaim_withFlags (turns i : Nat) :
    (s.withFlags f).reclaim turns i =
      (s.reclaim turns i).map (Option.map fun s => s.withFlags f) := by
  induction turns generalizing i with
  | zero => rfl
  | succ turns ih =>
    rw [reclaim, reclaim]
    by_cases inside : i ≤ maxBytes
    · rw [if_pos inside, if_pos inside]
      by_cases some : s.freeList (getFreeList i) ≠ 0
      · have some' : (s.withFlags f).freeList (getFreeList i) ≠ 0 := some
        simp only
        rw [if_pos some, if_pos some', Option.map_some, Option.map_some]
        simp only [withFlags, pop]
      · have none' : ¬(s.withFlags f).freeList (getFreeList i) ≠ 0 := some
        simp only
        rw [if_neg some, if_neg none']
        exact ih _
    · rw [if_neg inside, if_neg inside, Option.map_some, Option.map_none]

/-- `_M_allocate_chunk` neither reads nor writes the flags. -/
theorem allocateChunk_withFlags (n nobjs fuel : Nat) (answers : List (Option Nat)) :
    allocateChunk n nobjs fuel answers (s.withFlags f) =
      ((allocateChunk n nobjs fuel answers s).1,
        (allocateChunk n nobjs fuel answers s).2.withFlags f) := by
  induction fuel generalizing answers s with
  | zero => rfl
  | succ fuel ih =>
    rw [allocateChunk, allocateChunk, setAside_withFlags]
    by_cases many : SizeT.mul n nobjs ≤ SizeT.sub s.endFree s.startFree
    · have many' : SizeT.mul n nobjs ≤
          SizeT.sub (s.withFlags f).endFree (s.withFlags f).startFree := many
      simp only
      rw [if_pos many, if_pos many']
      rfl
    have few' : ¬SizeT.mul n nobjs ≤
        SizeT.sub (s.withFlags f).endFree (s.withFlags f).startFree := many
    by_cases one : n ≤ SizeT.sub s.endFree s.startFree
    · have one' : n ≤ SizeT.sub (s.withFlags f).endFree (s.withFlags f).startFree := one
      simp only
      rw [if_neg many, if_neg few', if_pos one, if_pos one']
      rfl
    have none' : ¬n ≤ SizeT.sub (s.withFlags f).endFree (s.withFlags f).startFree := one
    simp only
    rw [if_neg many, if_neg few', if_neg one, if_neg none']
    rcases answers with _ | ⟨_ | base, answers⟩
    · rfl
    · have search := reclaim_withFlags (f := f) (s := s.setAside.refused (SizeT.add
        (SizeT.mul 2 (SizeT.mul n nobjs)) (roundUp (s.setAside.heapSize >>> 4))))
        (freeListSize + 1) n
      simp only [refused, withFlags] at search ⊢
      rw [search]
      generalize Pool.reclaim _ (freeListSize + 1) n = found
      rcases found with _ | _ | found
      · rfl
      · rfl
      · exact ih answers
    · exact ih (s := s.setAside.grow _ base) answers

/-- The environment is asked at most once, and only a flag changes. -/
theorem exists_checked (s : Pool) (T : ElemType) : ∃ f, s.checked T = s.withFlags f := by
  unfold checked
  split_ifs
  · exact ⟨_, rfl⟩
  · exact ⟨s.forceNew, rfl⟩

end Pool

namespace World

variable {w : World} {A : Arena} {T : ElemType} {p n : Nat} {answer : Option Nat}

/-- Two live blocks are never the same. -/
theorem Inv.nodup_live (inv : w.Inv A) : w.live.Nodup := by
  rw [List.nodup_iff_sublist]
  intro b twice
  have live : b ∈ w.live := twice.subset List.mem_cons_self
  have bounds := inv.live_bounds live
  have some : 0 < b.bytes := Nat.mul_pos (Nat.pos_of_ne_zero (inv.counted b live)) b.type.size_pos
  by_cases pooled : b.Pooled
  · have both : [b.span, b.span].Sublist w.pooled := by
      have filtered := (twice.filter (·.Pooled)).map Block.span
      simp only [List.filter_cons, pooled, decide_true, if_true, List.filter_nil, List.map_cons,
        List.map_nil] at filtered
      exact filtered
    have apart := cover_le_one_iff.mp fun x => (Nat.le_add_right _ _).trans
      ((Nat.le_add_right _ _).trans (inv.ledger.once x))
    have self := (List.pairwise_cons.mp (apart.sublist both)).1 _ (List.mem_singleton_self _)
    have length : 0 < b.span.length := by
      rw [Block.span_of_pooled pooled (inv.counted b live)]
      exact classSize_pos _
    exact self b.span.start ⟨le_refl _, Nat.lt_add_of_pos_right length⟩
      ⟨le_refl _, Nat.lt_add_of_pos_right length⟩
  · have both : [b.span, b.span].Sublist w.direct := by
      have filtered := (twice.filter (¬·.Pooled)).map Block.span
      simp only [List.filter_cons, pooled, not_false_eq_true, decide_true, if_true,
        List.filter_nil, List.map_cons, List.map_nil] at filtered
      exact filtered
    have apart := (inv.system.sublist (List.sublist_append_left _ _)).apart
    have self := (List.pairwise_cons.mp (apart.sublist both)).1 _ (List.mem_singleton_self _)
    simp only [Interval.Apart, Interval.stop, Block.span, if_neg pooled] at self
    omega

/-- A request for nothing. -/
theorem step_zero : w.step (.allocate T 0 answer) = (w, .returned 0) := by
  have result : w.pool.allocate T 0 false [answer] = (.ok 0, w.pool) := if_pos rfl
  rw [step_allocate_ok result, if_pos rfl]

/-- A request beyond `max_size`. -/
theorem step_beyond (positive : n ≠ 0) (beyond : Pool.maxSize T < n) :
    w.step (.allocate T n answer) = (w, .failed .badAlloc) := by
  have result : w.pool.allocate T n false [answer] = (.error .badAlloc, w.pool) := by
    rw [Pool.allocate, if_neg positive, if_pos beyond]
  rw [step_allocate_error result]

/-- Nothing is given back. -/
theorem Inv.step_null (inv : w.Inv A) (null : n = 0 ∨ p = 0) :
    w.step (.deallocate T p n) = (w, .done) := by
  have same : w.pool.deallocate T p n = w.pool := if_neg (by
    rcases null with rfl | rfl
    · simp
    · simp)
  have absent : ⟨T, n, p⟩ ∉ w.live := by
    intro live
    rcases null with rfl | rfl
    · exact inv.counted _ live rfl
    · exact (inv.live_bounds live).1.false
  rw [World.step, same, List.erase_of_not_mem absent]

/-- A request that goes to the system. -/
theorem step_system (answer : Option Nat) (positive : n ≠ 0) (fits : n * T.size < addressSpace)
    (large : maxBytes < n * T.size) :
    ∃ f, w.step (.allocate T n answer) =
      ({ pool := w.pool.withFlags f
         live := (answer.map fun p => ⟨T, n, p⟩).toList ++ w.live }, .ofOption answer) := by
  have result := w.pool.allocate_of_large positive fits large answer
  rcases w.pool.exists_checked T with ⟨f, checked⟩
  rw [checked] at result
  refine ⟨f, ?_⟩
  cases answer with
  | none => rw [step_allocate_error result]; rfl
  | some p => rw [step_allocate_ok result, if_neg positive]; rfl

/-- A block that goes back to the system. -/
theorem step_discard (large : maxBytes < SizeT.mul n T.size) :
    w.step (.deallocate T p n) = ({ w with live := w.live.erase ⟨T, n, p⟩ }, .done) := by
  have same : w.pool.deallocate T p n = w.pool := by
    unfold Pool.deallocate
    split_ifs
    · exact if_pos (Or.inl large)
    · rfl
  rw [step, same]

/-- A block that goes back to its list. -/
theorem Inv.step_push (inv : w.Inv A) (positive : n ≠ 0) (nonzero : p ≠ 0)
    (small : SizeT.mul n T.size ≤ maxBytes) :
    w.step (.deallocate T p n) =
      ({ pool := w.pool.push (getFreeList (SizeT.mul n T.size)) p
         live := w.live.erase ⟨T, n, p⟩ }, .done) := by
  have pushed : w.pool.deallocate T p n = w.pool.push (getFreeList (SizeT.mul n T.size)) p := by
    rw [Pool.deallocate, if_pos ⟨positive, nonzero⟩]
    exact if_neg (by simp [small, inv.env T])
  rw [World.step, pushed]

/-- A request served from its list. -/
theorem Inv.step_pop (inv : w.Inv A) (positive : n ≠ 0) (small : n * T.size ≤ maxBytes)
    (free : w.pool.freeList (classOf (n * T.size)) ≠ 0) (answer : Option Nat) :
    ∃ f, w.step (.allocate T n answer) =
      ({ pool := (w.pool.pop (classOf (n * T.size))
            (w.pool.freeList (classOf (n * T.size)))).withFlags f
         live := ⟨T, n, w.pool.freeList (classOf (n * T.size))⟩ :: w.live },
        .returned (w.pool.freeList (classOf (n * T.size)))) := by
  have result := Pool.allocate_of_free inv.env positive small free [answer]
  rcases w.pool.exists_checked T with ⟨f, checked⟩
  refine ⟨f, ?_⟩
  rw [step_allocate_ok result, if_neg positive, checked]
  rfl

/-- A request for which `_M_allocate_chunk` throws. -/
theorem Inv.step_refused (inv : w.Inv A) (positive : n ≠ 0) (small : n * T.size ≤ maxBytes)
    (empty : w.pool.freeList (classOf (n * T.size)) = 0) {e : Failure} {pool : Pool}
    (chunk : Pool.allocateChunk (classSize (classOf (n * T.size))) 20 3 [answer] w.pool =
      (.error e, pool)) :
    ∃ f, w.step (.allocate T n answer) = ({ w with pool := pool.withFlags f }, .failed e) := by
  rcases w.pool.exists_checked T with ⟨f, checked⟩
  have result : w.pool.allocate T n false [answer] = _ :=
    Pool.allocate_of_small inv.env positive small
  have empty' : (w.pool.withFlags f).freeList (classOf (n * T.size)) = 0 := empty
  rw [checked, if_pos empty', Pool.refill, Pool.allocateChunk_withFlags, chunk] at result
  exact ⟨f, step_allocate_error result⟩

/-- What `_M_refill` leaves when it got `nobjs` objects: those behind the first one are
threaded, and head their list. -/
def threadedPool (pool : Pool) (c chunk nobjs : Nat) : Pool :=
  if nobjs = 1 then pool
  else
    { pool with
      freeList := Function.update pool.freeList c (chunk + classSize c)
      machine := threaded 0 (classSize c) (nobjs - 2) (chunk + classSize c) pool.machine }

/-- The chunk that `_M_allocate_chunk` found is memory that no block has. -/
structure Chunk (w : World) (regions : List Interval) (I : Interval) : Prop where
  nonzero : I.start ≠ 0
  bound : I.stop < addressSpace
  separate : ∀ b ∈ w.live, I.Separate b.span
  covered : ∀ x ∈ I, 0 < cover regions x

/-- It stays so as long as new blocks lie elsewhere. -/
theorem Chunk.congr {w' : World} {regions : List Interval} {I : Interval}
    (chunk : w.Chunk regions I) (live : ∀ b ∈ w'.live, b ∈ w.live ∨ I.Separate b.span) :
    w'.Chunk regions I :=
  { chunk with separate := fun b member => (live b member).elim (chunk.separate b) id }

/-- A block outside the regions lies elsewhere. -/
theorem Chunk.outside {regions : List Interval} {I J : Interval} (chunk : w.Chunk regions I)
    (outside : ∀ r ∈ regions, J.Separate r) : I.Separate J := by
  intro x inside within
  rcases cover_pos_iff.mp (chunk.covered x inside) with ⟨r, region, among⟩
  exact outside r region x within among

/-- So does a part of it. -/
theorem Chunk.within {regions : List Interval} {I J : Interval} (chunk : w.Chunk regions I)
    (within : J.Within I) : w.Chunk regions J where
  nonzero := ((Nat.pos_of_ne_zero chunk.nonzero).trans_le within.1).ne'
  bound := within.2.trans_lt chunk.bound
  separate b live := (chunk.separate b live).mono within (.refl _)
  covered x inside := chunk.covered x (within.mem inside)

/-- What is behind the first of `k` objects. -/
theorem within_tail {p size k : Nat} (some : 0 < k) :
    Interval.Within ⟨p + size, (k - 1) * size⟩ ⟨p, k * size⟩ := by
  obtain ⟨k, rfl⟩ := Nat.exists_eq_add_of_le' some
  refine ⟨Nat.le_add_right _ _, ?_⟩
  simp only [Interval.stop, Nat.add_sub_cancel, Nat.succ_mul]
  omega

theorem Inv.chunk (inv : w.Inv A) {c chunk nobjs : Nat} (inside : c < freeListSize) {pool : Pool}
    (found : Pool.allocateChunk (classSize c) 20 3 [answer] w.pool = (.ok (chunk, nobjs), pool))
    (granted : Granted (w.direct ++ pool.regions)) :
    0 < nobjs ∧ w.Chunk pool.regions ⟨chunk, nobjs * classSize c⟩ := by
  have regions : pool.regions = A.regionsAfter c answer w.pool.regions := by
    have requests := inv.sim.requests_allocateChunk inv.ledger inside answer
    rw [found] at requests
    rw [Pool.regions, requests, Arena.requestsAfter, Arena.regionsAfter]
    split_ifs
    · rfl
    · cases answer <;> rfl
  have granted' := granted.sublist (List.sublist_append_right w.direct _)
  rw [regions] at granted granted' ⊢
  have ledger' := inv.ledger.obtain inside granted'
  have room := A.room_obtain c answer
  rcases inv.sim.allocateChunk_eq inv.ledger inside granted' with ⟨s', _, result⟩
  rw [result 1] at found
  rcases case : A.obtain c answer with ⟨A', _ | _⟩
  · rw [case] at found
    cases found
  · rw [case] at found ledger' room
    cases found
    have fits := A'.carved_mul_le c
    have within : Interval.Within ⟨A'.rem.start, A'.carved c * classSize c⟩ A'.rem :=
      ⟨le_refl _, Nat.add_le_add_left fits _⟩
    exact ⟨Arena.carved_pos (room rfl),
      { nonzero := (ledger'.rem_pos ((classSize_pos c).trans_le (room rfl))).ne'
        bound := within.2.trans_lt ledger'.rem_lt
        separate := fun b live => (rem_separate_span ledger' granted live).mono within (.refl _)
        covered := fun x inside => by
          rw [← ledger'.balanced]
          exact rem_within A' w.pooled x (within.mem inside) }⟩

/-- A request for which `_M_allocate_chunk` finds objects. -/
theorem Inv.step_refilled (inv : w.Inv A) (positive : n ≠ 0) (small : n * T.size ≤ maxBytes)
    (empty : w.pool.freeList (classOf (n * T.size)) = 0) {chunk nobjs : Nat} {pool : Pool}
    (found : Pool.allocateChunk (classSize (classOf (n * T.size))) 20 3 [answer] w.pool =
      (.ok (chunk, nobjs), pool))
    (granted : Granted (w.direct ++ pool.regions)) :
    ∃ f, w.step (.allocate T n answer) =
      ({ pool := (threadedPool pool (classOf (n * T.size)) chunk nobjs).withFlags f
         live := ⟨T, n, chunk⟩ :: w.live }, .returned chunk) := by
  have inside := classOf_lt small
  rcases inv.chunk inside found granted with ⟨some, facts⟩
  rcases w.pool.exists_checked T with ⟨f, checked⟩
  have result : w.pool.allocate T n false [answer] = _ :=
    Pool.allocate_of_small inv.env positive small
  generalize classOf (n * T.size) = c at *
  have empty' : (w.pool.withFlags f).freeList c = 0 := empty
  have found' : Pool.allocateChunk (classSize c) 20 3 [answer] (w.pool.withFlags f) =
      (.ok (chunk, nobjs), pool.withFlags f) := by
    rw [Pool.allocateChunk_withFlags, found]
  rw [checked, if_pos empty', Pool.refill_of_ok some facts.bound found'] at result
  simp only at result
  rw [if_neg facts.nonzero, getFreeList_classSize inside] at result
  refine ⟨f, ?_⟩
  rw [step_allocate_ok result, if_neg positive, threadedPool]
  split_ifs
  · rfl
  · rfl

end World

end TorchTest.PoolAlloc
