import TorchTest.PoolAlloc.Chunk

/-!
# `_M_refill` and `allocate` in closed form

The loop of `_M_refill` threads the objects behind the first one
(`linkObjects_eq`); with the chunk from `_M_allocate_chunk` that is `carve`
(`refill_eq`). A request served from a list is the first case of
`Arena.allocate`, so the pooled part of `allocate` is the whole of it
(`pooled_eq`).
-/

namespace TorchTest.PoolAlloc

/-! ## The loop -/

/-- From turn `nobjs - 1 - k` on the loop threads `k + 1` objects. -/
theorem linkObjects_eq {n nobjs fuel i k p : Nat} (m : Machine) (turns : nobjs - 1 = i + k)
    (enough : k < fuel) (bound : p + k * n < addressSpace) :
    Pool.linkObjects n nobjs fuel i p m = some (threaded 0 n k p m) := by
  induction k generalizing fuel i p m with
  | zero =>
    rcases Nat.exists_eq_succ_of_ne_zero enough.ne' with ⟨fuel, rfl⟩
    rw [Pool.linkObjects, if_pos (show nobjs - 1 = i from turns)]
    rfl
  | succ k ih =>
    rcases Nat.exists_eq_succ_of_ne_zero (Nat.zero_lt_of_lt enough).ne' with ⟨fuel, rfl⟩
    rw [Nat.succ_mul] at bound
    rw [Pool.linkObjects, if_neg (by omega), SizeT.add_eq (by omega),
      ih _ (by omega) (by omega) (by omega)]
    rfl

/-- What `_M_refill` does with a chunk of `k` objects. -/
theorem Pool.refill_of_ok {n k p : Nat} {answers : List (Option Nat)} {s s' : Pool} (positive : 0 < k)
    (bound : p + k * n < addressSpace)
    (chunk : allocateChunk n 20 3 answers s = (.ok (p, k), s')) :
    s.refill n answers = (.ok p,
      if k = 1 then s'
      else
        { s' with
          freeList := Function.update s'.freeList (getFreeList n) (p + n)
          machine := threaded 0 n (k - 2) (p + n) s'.machine }) := by
  rw [refill, chunk]
  simp only
  by_cases one : k = 1
  · rw [if_pos one, if_pos one]
  · obtain ⟨k, rfl⟩ := Nat.exists_eq_add_of_le' (show 2 ≤ k by omega)
    rw [Nat.add_mul] at bound
    rw [if_neg one, if_neg one, SizeT.add_eq (by omega),
      linkObjects_eq (k := k) s'.machine (by omega) (by omega) (by omega)]
    rfl

/-! ## Carving -/

/-- The pool after `k` objects of class `c` were carved off its remainder. -/
def Pool.carve (s : Pool) (c k : Nat) : Pool :=
  let s' := { s with startFree := s.startFree + k * classSize c }
  if k = 1 then s'
  else
    { s' with
      freeList := Function.update s.freeList c (s.startFree + classSize c)
      machine := threaded 0 (classSize c) (k - 2) (s.startFree + classSize c) s.machine }

@[simp] theorem Pool.forceNew_carve (s : Pool) (c k : Nat) :
    (s.carve c k).forceNew = s.forceNew := by
  unfold carve
  split <;> rfl

/-- Carving, in the lists and in memory. -/
theorem Sim.carve {s : Pool} {A : Arena} {live regions : List Interval} {c : Nat} (sim : Sim s A)
    (ledger : Ledger A live regions) (none : A.lists c = []) (room : classSize c ≤ A.rem.length) :
    Sim (s.carve c (A.carved c)) (A.carve c) ∧
      WroteIn A.rem s.machine (s.carve c (A.carved c)).machine := by
  have positive := classSize_pos c
  have some := ledger.rem_pos (positive.trans_le room)
  have bound := ledger.rem_lt
  have fits := A.carved_mul_le c
  have carved := A.carved_pos room
  have start : s.startFree + A.carved c * classSize c = (A.carve c).rem.start := by
    rw [sim.start]
    rfl
  have stop : s.endFree = (A.carve c).rem.stop := by
    rw [sim.stop]
    change A.rem.start + A.rem.length = A.rem.start + _ + (A.rem.length - _)
    omega
  unfold Pool.carve
  by_cases one : A.carved c = 1
  · rw [if_pos one]
    refine ⟨⟨fun i small => ?_, start, stop, sim.heap⟩, WroteIn.refl _ _⟩
    have same : (A.carve c).lists = A.lists := by
      rw [Arena.carve, one]
      exact Function.update_eq_self_iff.mpr none.symm
    rw [same]
    exact sim.chains i small
  · rw [if_neg one]
    obtain ⟨k, more⟩ := Nat.exists_eq_add_of_le' (show 2 ≤ A.carved c by omega)
    rw [more, Nat.add_mul] at fits
    have length : A.carved c - 1 = k + 1 := by omega
    have turns : A.carved c - 2 = k := by omega
    rw [Nat.succ_mul, Nat.one_mul] at fits
    have link : 0 + pointerSize ≤ classSize c := pointerSize_le_classSize c
    have within : Interval.Within ⟨A.rem.start + classSize c, (k + 1) * classSize c⟩ A.rem := by
      refine ⟨Nat.le_add_right _ _, ?_⟩
      simp only [Interval.stop, Nat.succ_mul]
      omega
    have kept : Chains (threaded 0 (classSize c) k (A.rem.start + classSize c) s.machine)
        s.freeList A.lists := sim.chains.congr fun i small p node =>
      agreeOn_threaded _ link
        ((ledger.rem_separate_node small node).mono within (.refl _))
    have list : Chain (threaded 0 (classSize c) k (A.rem.start + classSize c) s.machine).loadPtr
        (A.rem.start + classSize c)
        (progression (A.rem.start + classSize c) (classSize c) (k + 1)) :=
      chain_threaded s.machine link (by omega) (by
        unfold Interval.stop at bound
        omega)
    simp only [turns, sim.start]
    refine ⟨⟨?_, sim.start ▸ start, stop, sim.heap⟩, _, wrote_threaded _, fun p member => ?_⟩
    · rw [Arena.carve, length]
      exact kept.setList list
    · exact (within_of_mem_links link member).trans within

/-! ## `_M_refill` -/

/-- What a request for a block of class `c` makes of the pool: the arena after
`allocate`, without a change to what misses the intervals carved. -/
structure Served (A : Arena) (c : Nat) (answer : Option Nat) (s s' : Pool) : Prop where
  sim : Sim s' (A.allocate c answer).1
  forceNew : s'.forceNew = s.forceNew
  frame : ∀ I, (A.lists c = [] → A.rem.Separate I ∧ (A.obtain c answer).1.rem.Separate I) →
    Machine.AgreeOn I s.machine s'.machine

/-- The pointer returned, or `std::bad_alloc`. -/
def served : Option Nat → Except Failure Nat
  | some p => .ok p
  | none => .error .badAlloc

namespace Sim

variable {s : Pool} {A : Arena} {live regions : List Interval} {c : Nat} {answer : Option Nat}

/-- An empty list: the request is served by `obtain` and `carve`. -/
theorem refill_eq (sim : Sim s A) (ledger : Ledger A live regions) (small : c < freeListSize)
    (empty : A.lists c = []) (granted : Granted (A.regionsOf c answer regions)) :
    ∃ s', Served A c answer s s' ∧
      s.refill (classSize c) [answer] = (served (A.allocate c answer).2, s') := by
  rw [Arena.regionsOf, if_pos empty] at granted
  have ledger' := ledger.obtain small granted
  have empty' := A.lists_obtain (c := c) answer empty ledger.aligned
  have room := A.room_obtain c answer
  rcases sim.allocateChunk_eq ledger small granted with ⟨s', obtained, chunk⟩
  have chunk := chunk 1
  have sim' := obtained.sim
  have allocate := A.allocate_of_nil empty answer
  rcases case : A.obtain c answer with ⟨A', ok⟩
  rw [case] at ledger' empty' room sim' chunk allocate
  cases ok with
  | true =>
    rcases sim'.carve ledger' empty' (room rfl) with ⟨carved, wrote⟩
    have bound := (Nat.add_le_add_left (A'.carved_mul_le c) _).trans_lt ledger'.rem_lt
    have refill := Pool.refill_of_ok (Arena.carved_pos (room rfl)) bound chunk
    refine ⟨s'.carve c (A'.carved c), ⟨?_, ?_, fun I outside => ?_⟩, ?_⟩
    · rw [allocate]
      exact carved
    · rw [Pool.forceNew_carve, obtained.forceNew]
    · rcases outside empty with ⟨old, new⟩
      rw [case] at new
      exact (obtained.wrote.agreeOn old).trans (wrote.agreeOn new)
    · rw [refill, allocate, Pool.carve, getFreeList_classSize small, sim'.start]
      rfl
  | false =>
    refine ⟨s', ⟨?_, obtained.forceNew, fun I outside => ?_⟩, ?_⟩
    · rw [allocate]
      exact sim'
    · exact obtained.wrote.agreeOn (outside empty).1
    · rw [Pool.refill, chunk, allocate]
      rfl

end Sim

/-! ## `allocate` and `deallocate` -/

namespace Pool

/-- The first call for `T` looks at the environment. -/
def checked (s : Pool) (T : ElemType) : Pool :=
  if s.forceNew T = 0 then { s with forceNew := Function.update s.forceNew T (-1) } else s

variable {s : Pool} {T : ElemType} {n : Nat} {answers : List (Option Nat)}

@[simp] theorem machine_checked : (s.checked T).machine = s.machine := by
  unfold checked
  split <;> rfl

@[simp] theorem requests_checked : (s.checked T).requests = s.requests := by
  unfold checked
  split <;> rfl

/-- Without `GLIBCXX_FORCE_NEW` no type is ever sent to the system. -/
theorem forceNew_checked_le (env : ∀ U, s.forceNew U ≤ 0) (U : ElemType) :
    (s.checked T).forceNew U ≤ 0 := by
  unfold checked
  split
  · rcases eq_or_ne U T with rfl | other
    · simp
    · simpa [other] using env U
  · exact env U

/-- The call is within `max_size` exactly if the bytes fit into `size_t`. -/
theorem maxSize_lt_iff : maxSize T < n ↔ addressSpace ≤ n * T.size := by
  rw [maxSize, Nat.div_lt_iff_lt_mul T.size_pos]
  exact Iff.rfl

/-- A request of more than 128 bytes goes to the system. -/
theorem allocate_of_large (positive : n ≠ 0) (fits : n * T.size < addressSpace)
    (large : maxBytes < n * T.size) (answer : Option Nat) :
    s.allocate T n false [answer] = (served answer, s.checked T) := by
  rw [allocate, if_neg positive, if_neg (mt maxSize_lt_iff.mp (Nat.not_le.mpr fits))]
  simp only [SizeT.mul_eq fits]
  rw [if_pos (Or.inl large)]
  cases answer <;> rfl

/-- A request of up to 128 bytes goes to the pool. -/
theorem allocate_of_small (env : ∀ U, s.forceNew U ≤ 0) (positive : n ≠ 0)
    (small : n * T.size ≤ maxBytes) :
    s.allocate T n false answers =
      match (if (s.checked T).freeList (classOf (n * T.size)) = 0 then
          (s.checked T).refill (classSize (classOf (n * T.size))) answers
        else
          (.ok ((s.checked T).freeList (classOf (n * T.size))),
            (s.checked T).pop (classOf (n * T.size))
              ((s.checked T).freeList (classOf (n * T.size))))) with
      | (.ok ret, s) => if ret = 0 then (.error .badAlloc, s) else (.ok ret, s)
      | (.error e, s) => (.error e, s) := by
  have space : addressSpace = 18446744073709551616 := rfl
  have fits : n * T.size < addressSpace := small.trans_lt (by decide)
  have some : 0 < n * T.size := Nat.mul_pos (Nat.pos_of_ne_zero positive) T.size_pos
  have forced : ¬0 < (s.checked T).forceNew T := (forceNew_checked_le env T).not_gt
  rw [allocate, if_neg positive, if_neg (mt maxSize_lt_iff.mp (Nat.not_le.mpr fits))]
  change (if maxBytes < SizeT.mul n T.size ∨ 0 < (s.checked T).forceNew T then _ else _) = _
  rw [SizeT.mul_eq fits, if_neg (by simp [forced, small]), getFreeList_eq some small,
    roundUp_eq_classSize some small]
  rfl

end Pool

namespace Sim

variable {s : Pool} {A : Arena} {live regions : List Interval} {T : ElemType} {n : Nat}
  {answer : Option Nat}

theorem checked (sim : Sim s A) (T : ElemType) : Sim (s.checked T) A := by
  unfold Pool.checked
  split
  · exact ⟨sim.chains, sim.start, sim.stop, sim.heap⟩
  · exact sim

/-- The head of a list is handed out. -/
theorem pop {c p : Nat} {rest : List Nat} (sim : Sim s A) (small : c < freeListSize)
    (list : A.lists c = p :: rest) : Sim (s.pop c p) (A.setList c rest) :=
  ⟨sim.chains.pop small list, sim.start, sim.stop, sim.heap⟩

/-- A request of up to 128 bytes is served as by the arena. -/
theorem allocate_eq (sim : Sim s A) (ledger : Ledger A live regions) (env : ∀ U, s.forceNew U ≤ 0)
    (positive : n ≠ 0) (small : n * T.size ≤ maxBytes)
    (granted : Granted (A.regionsOf (classOf (n * T.size)) answer regions)) :
    ∃ s', Served A (classOf (n * T.size)) answer (s.checked T) s' ∧
      s.allocate T n false [answer] = (served (A.allocate (classOf (n * T.size)) answer).2, s') := by
  have inside := classOf_lt small
  rw [Pool.allocate_of_small env positive small]
  generalize classOf (n * T.size) = c at *
  have sim' := sim.checked T
  by_cases empty : A.lists c = []
  · rw [if_pos ((sim'.chains.eq_zero_iff inside).mpr empty)]
    rcases sim'.refill_eq ledger inside empty granted with ⟨s', served', refill⟩
    refine ⟨s', served', ?_⟩
    rw [refill]
    cases case : (A.allocate c answer).2 with
    | none => rfl
    | some p =>
      exact if_neg (ledger.pos_of_allocate inside granted case).ne'
  · rcases List.exists_cons_of_ne_nil empty with ⟨p, rest, list⟩
    have head := sim'.chains.head_eq inside list
    have bounds := ledger.node_bounds inside (list ▸ List.mem_cons_self)
    have allocate := A.allocate_of_cons list answer
    rw [if_neg (mt (sim'.chains.eq_zero_iff inside).mp empty), head, allocate]
    simp only
    rw [if_neg bounds.1.ne']
    refine ⟨(s.checked T).pop c p, ⟨?_, rfl, fun I _ => Machine.AgreeOn.refl I _⟩, rfl⟩
    rw [allocate]
    exact sim'.pop inside list

end Sim

/-! ## Requests -/

namespace Pool

/-- Without an answer no request is recorded. -/
theorem requests_allocateChunk_nil (n nobjs fuel : Nat) (s : Pool) :
    (allocateChunk n nobjs fuel [] s).2.requests = s.requests := by
  cases fuel with
  | zero => rfl
  | succ fuel =>
    rw [allocateChunk]
    simp only
    split_ifs
    · rfl
    · rfl
    · exact s.requests_setAside

/-- `_M_refill` itself asks for nothing. -/
theorem requests_refill (n : Nat) (answers : List (Option Nat)) (s : Pool) :
    (s.refill n answers).2.requests = (allocateChunk n 20 3 answers s).2.requests := by
  rw [refill]
  rcases allocateChunk n 20 3 answers s with ⟨_ | ⟨chunk, nobjs⟩, s'⟩
  · rfl
  · simp only
    split_ifs
    · rfl
    · split <;> rfl

end Pool

/-- The requests recorded when an interval for class `c` was obtained. -/
def Arena.requestsAfter (A : Arena) (c : Nat) (answer : Option Nat)
    (requests : List (Nat × Option Nat)) : List (Nat × Option Nat) :=
  if classSize c ≤ A.rem.length then requests else (A.wanted c, answer) :: requests

namespace Sim

variable {s : Pool} {A : Arena} {live regions : List Interval} {c : Nat} {T : ElemType} {n : Nat}

/-- `_M_allocate_chunk` asks at most once. -/
theorem requests_allocateChunk (sim : Sim s A) (ledger : Ledger A live regions)
    (small : c < freeListSize) (answer : Option Nat) :
    (Pool.allocateChunk (classSize c) 20 3 [answer] s).2.requests =
      A.requestsAfter c answer s.requests := by
  unfold Arena.requestsAfter
  by_cases room : classSize c ≤ A.rem.length
  · rw [if_pos room, sim.allocateChunk_of_room ledger small room 2 [answer]]
  · have short := Nat.lt_of_not_le room
    rw [if_neg room, ← s.requests_setAside]
    cases answer with
    | some base =>
      rw [sim.allocateChunk_of_granted ledger small short, Pool.requests_allocateChunk_nil]
      rfl
    | none =>
      cases found : A.setAside.firstFree c with
      | some j =>
        rw [sim.allocateChunk_of_found ledger small short 2 found, Pool.requests_allocateChunk_nil]
        rfl
      | none =>
        rw [sim.allocateChunk_of_exhausted ledger small short 2 found]
        rfl

/-- A request of up to 128 bytes asks for memory at most once. -/
theorem requests_allocate (sim : Sim s A) (ledger : Ledger A live regions)
    (env : ∀ U, s.forceNew U ≤ 0) (positive : n ≠ 0) (small : n * T.size ≤ maxBytes)
    (answer : Option Nat) :
    (s.allocate T n false [answer]).2.requests =
      if A.lists (classOf (n * T.size)) = [] then
        A.requestsAfter (classOf (n * T.size)) answer s.requests
      else s.requests := by
  have inside := classOf_lt small
  have sim' := sim.checked T
  rw [Pool.allocate_of_small env positive small]
  generalize classOf (n * T.size) = c at *
  have refill := (Pool.requests_refill (classSize c) [answer] (s.checked T)).trans
    (sim'.requests_allocateChunk ledger inside answer)
  rw [Pool.requests_checked] at refill
  by_cases empty : A.lists c = []
  · rw [if_pos empty, if_pos ((sim'.chains.eq_zero_iff inside).mpr empty), ← refill]
    rcases (s.checked T).refill (classSize c) [answer] with ⟨_ | ret, s'⟩
    · rfl
    · simp only
      split_ifs <;> rfl
  · have nonzero := mt (sim'.chains.eq_zero_iff inside).mp empty
    rw [if_neg empty, if_neg nonzero]
    simp only
    rw [if_neg nonzero]
    exact Pool.requests_checked

end Sim

end TorchTest.PoolAlloc
