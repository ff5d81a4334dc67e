import TorchTest.PoolAlloc.Ledger
import TorchTest.Threaded

/-!
# `_M_allocate_chunk` and `_M_refill` in closed form

`Sim s A` says that the static members are what the arena `A` looks like in
memory: the list of each class is threaded through its blocks, and the pointers
delimit the remainder. With balanced books the functions of the source do to the
pool what `obtain` and `carve` do to the arena (`allocateChunk_eq`,
`refill_eq`): no computation wraps, the recursion is one level deep, and the loop
of `_M_refill` ends because at least one block fits. Stores go to the remainder
only.
-/

namespace TorchTest.PoolAlloc

/-- The lists of the arena are threaded through memory. -/
def Chains (m : Machine) (heads : Nat → Nat) (lists : Nat → List Nat) : Prop :=
  ∀ i < freeListSize, Chain m.loadPtr (heads i) (lists i)

/-- The pool is what the arena looks like in memory. -/
structure Sim (s : Pool) (A : Arena) : Prop where
  chains : Chains s.machine s.freeList A.lists
  start : s.startFree = A.rem.start
  stop : s.endFree = A.rem.stop
  heap : s.heapSize = A.heapSize

/-- Some pointers were stored, all of them inside the interval. -/
def WroteIn (I : Interval) (m m' : Machine) : Prop :=
  ∃ L, Machine.Wrote L m m' ∧ ∀ p ∈ L, Interval.Within ⟨p, pointerSize⟩ I

namespace WroteIn

variable {I J : Interval} {m m' m'' : Machine}

theorem refl (I : Interval) (m : Machine) : WroteIn I m m :=
  ⟨[], Machine.Wrote.refl m, fun _ member => nomatch member⟩

theorem mono (wrote : WroteIn I m m') (within : I.Within J) : WroteIn J m m' := by
  rcases wrote with ⟨L, wrote, inside⟩
  exact ⟨L, wrote, fun p member => (inside p member).trans within⟩

theorem agreeOn (wrote : WroteIn I m m') (separate : I.Separate J) : Machine.AgreeOn J m m' := by
  rcases wrote with ⟨L, wrote, inside⟩
  exact wrote.agreeOn fun p member => separate.mono (inside p member) (.refl _)

end WroteIn

theorem wroteIn_storePtr (m : Machine) (p v : Nat) :
    WroteIn ⟨p, pointerSize⟩ m (m.storePtr p v) :=
  ⟨_, Machine.wrote_storePtr m p v, fun q member => by
    rw [List.mem_singleton.mp member]
    exact .refl _⟩

/-! ## The lists -/

namespace Chains

variable {m m' : Machine} {heads : Nat → Nat} {A : Arena} {c i p : Nat} {rest : List Nat}

/-- The head of a list is null exactly when the list is empty. -/
theorem eq_zero_iff (chains : Chains m heads A.lists) (small : i < freeListSize) :
    heads i = 0 ↔ A.lists i = [] := by
  have chain := chains i small
  constructor
  · intro zero
    rw [zero] at chain
    exact chain.eq_nil
  · intro none
    rw [none] at chain
    exact Chain.nil_iff.mp chain

theorem head_eq (chains : Chains m heads A.lists) (small : i < freeListSize)
    (some : A.lists i = p :: rest) : heads i = p := by
  have chain := chains i small
  rw [some] at chain
  exact (Chain.cons_iff.mp chain).1

/-- The lists survive what leaves their blocks alone. -/
theorem congr (chains : Chains m heads A.lists)
    (agree : ∀ i < freeListSize, ∀ p ∈ A.lists i, Machine.AgreeOn ⟨p, classSize i⟩ m m') :
    Chains m' heads A.lists := fun i small =>
  (chains i small).congr fun p node =>
    (agree i small p node).loadPtr_eq (link_within p i)

/-- Another list in one place. -/
theorem setList (chains : Chains m heads A.lists) {h : Nat} {l : List Nat}
    (new : Chain m.loadPtr h l) :
    Chains m (Function.update heads c h) (A.setList c l).lists := by
  intro i small
  rcases eq_or_ne i c with rfl | other
  · rw [Function.update_self, Arena.setList_self]
    exact new
  · rw [Function.update_of_ne other, Arena.setList_of_ne A l other]
    exact chains i small

/-- Take the head of a list off. -/
theorem pop (chains : Chains m heads A.lists) (small : c < freeListSize)
    (some : A.lists c = p :: rest) :
    Chains m (Function.update heads c (m.loadPtr p)) (A.setList c rest).lists := by
  have chain := chains c small
  rw [some] at chain
  rcases Chain.cons_iff.mp chain with ⟨_, _, tail⟩
  exact chains.setList tail

end Chains

/-- Put a block in front of a list; its bytes hold no block of any list. -/
theorem Pool.chains_push {s : Pool} {A : Arena} {c p : Nat} {live regions : List Interval}
    (chains : Chains s.machine s.freeList A.lists) (ledger : Ledger A live regions)
    (small : c < freeListSize) (nonzero : 0 < p)
    (apart : ∀ i < freeListSize, ∀ q ∈ A.lists i,
      Interval.Separate ⟨p, pointerSize⟩ ⟨q, classSize i⟩) :
    Chains (s.push c p).machine (s.push c p).freeList (A.release c p).lists := by
  have kept : Chains (s.push c p).machine s.freeList A.lists := chains.congr fun i inside q node =>
    (wroteIn_storePtr _ p _).agreeOn (apart i inside q node)
  refine kept.setList (.cons (by omega) ?_)
  have link : (s.push c p).machine.loadPtr p = s.freeList c := by
    apply Machine.loadPtr_storePtr_same _ _
    cases list : A.lists c with
    | nil =>
      rw [(chains.eq_zero_iff small).mpr list]
      exact Nat.two_pow_pos 64
    | cons q rest =>
      have bounds := ledger.node_bounds small (list ▸ List.mem_cons_self)
      rw [chains.head_eq small list]
      omega
  rw [link]
  exact kept c small

/-! ## `_M_allocate_chunk` -/

namespace Sim

variable {s : Pool} {A : Arena} {live regions : List Interval} {c i p : Nat}

/-- The remainder's length, as the source computes it. -/
theorem bytesLeft (sim : Sim s A) (ledger : Ledger A live regions) :
    SizeT.sub s.endFree s.startFree = A.rem.length := by
  have bound := ledger.rem_lt
  rw [sim.stop, sim.start, SizeT.sub_eq (Nat.le_add_right _ _) bound]
  exact Nat.add_sub_cancel_left ..

/-- With room for a block, as many as fit are carved, at most twenty. -/
theorem allocateChunk_of_room (sim : Sim s A) (ledger : Ledger A live regions)
    (small : c < freeListSize) (room : classSize c ≤ A.rem.length) (fuel : Nat)
    (answers : List (Option Nat)) :
    Pool.allocateChunk (classSize c) 20 (fuel + 1) answers s =
      (.ok (A.rem.start, A.carved c),
        { s with startFree := A.rem.start + A.carved c * classSize c }) := by
  have space : addressSpace = 18446744073709551616 := rfl
  have size := classSize_lt small
  have positive := classSize_pos c
  have bound := ledger.rem_lt
  have fits := A.carved_mul_le c
  unfold Interval.stop at bound
  simp only [maxBytes] at size
  rw [Pool.allocateChunk]
  simp only [mul_twenty small, sim.bytesLeft ledger]
  rw [sim.start]
  by_cases all : classSize c * 20 ≤ A.rem.length
  · have twenty : A.carved c = 20 := by
      rw [Arena.carved, Nat.min_eq_left]
      rw [Nat.le_div_iff_mul_le positive, Nat.mul_comm]
      exact all
    rw [if_pos all, SizeT.add_eq (by omega), twenty, Nat.mul_comm 20]
  · have fewer : A.carved c = A.rem.length / classSize c := by
      rw [Arena.carved, Nat.min_eq_right]
      have less : A.rem.length / classSize c < 20 :=
        Nat.div_lt_of_lt_mul (Nat.lt_of_not_le all)
      exact less.le
    have product : SizeT.mul (classSize c) (A.carved c) = A.carved c * classSize c := by
      rw [SizeT.mul_eq (by rw [Nat.mul_comm]; omega), Nat.mul_comm]
    rw [if_neg all, if_pos room, ← fewer, product, SizeT.add_eq (by omega)]

end Sim

/-- The step of `firstFree`. -/
theorem Arena.firstFree_step (A : Arena) {i : Nat} (small : i < freeListSize) :
    A.firstFree i = if A.lists i = [] then A.firstFree (i + 1) else some i := by
  have more : freeListSize - i = freeListSize - (i + 1) + 1 := by omega
  rw [firstFree, more, List.range'_succ, List.find?_cons]
  by_cases none : A.lists i = []
  · simp [none, firstFree]
  · rw [if_neg none, List.isEmpty_eq_false_iff.mpr none]
    rfl

/-- Take the head of list `j` as the remainder. -/
def Pool.reuse (s : Pool) (j : Nat) : Pool :=
  { s.pop j (s.freeList j) with
    startFree := s.freeList j, endFree := SizeT.add (s.freeList j) (classSize j) }

/-- The search after a refusal finds what `firstFree` finds. -/
theorem Chains.reclaim_eq {s : Pool} {A : Arena} {i turns : Nat}
    (chains : Chains s.machine s.freeList A.lists) (fuel : freeListSize - i < turns) :
    s.reclaim turns (classSize i) = some ((A.firstFree i).map s.reuse) := by
  induction turns generalizing i with
  | zero => exact absurd fuel (Nat.not_lt_zero _)
  | succ turns ih =>
    by_cases small : i < freeListSize
    · have size := classSize_lt small
      rw [Pool.reclaim, if_pos size, getFreeList_classSize small, A.firstFree_step small]
      by_cases none : A.lists i = []
      · have next : SizeT.add (classSize i) align = classSize (i + 1) :=
          SizeT.add_eq (size.trans_lt (by decide) |> Nat.add_lt_of_lt_sub)
        rw [if_neg (not_not_intro ((chains.eq_zero_iff small).mpr none)), if_pos none, next]
        exact ih (by omega)
      · rw [if_pos (mt (chains.eq_zero_iff small).mp none), if_neg none]
        rfl
    · have large : ¬classSize i ≤ maxBytes := by
        simp only [classSize, freeListSize, maxBytes, align] at *
        omega
      have last : freeListSize - i = 0 := by omega
      rw [Pool.reclaim, if_neg large, Arena.firstFree, last]
      rfl

namespace Pool

@[simp] theorem heapSize_setAside (s : Pool) : s.setAside.heapSize = s.heapSize := by
  unfold setAside
  split <;> rfl

@[simp] theorem forceNew_setAside (s : Pool) : s.setAside.forceNew = s.forceNew := by
  unfold setAside
  split <;> rfl

@[simp] theorem requests_setAside (s : Pool) : s.setAside.requests = s.requests := by
  unfold setAside
  split <;> rfl

/-- Take a granted region as the remainder. -/
def grow (s : Pool) (bytes base : Nat) : Pool :=
  { s with
    startFree := base
    endFree := SizeT.add base bytes
    heapSize := SizeT.add s.heapSize bytes
    requests := (bytes, some base) :: s.requests }

/-- Record that a request was refused. -/
def refused (s : Pool) (bytes : Nat) : Pool := { s with requests := (bytes, none) :: s.requests }

/-- No remainder. -/
def dry (s : Pool) : Pool := { s with startFree := 0, endFree := 0 }

end Pool

namespace Sim

variable {s : Pool} {A : Arena} {live regions : List Interval} {c : Nat}

/-- Filing the left-over piece, in the lists and in memory. -/
theorem setAside (sim : Sim s A) (ledger : Ledger A live regions) (short : A.rem.length ≤ maxBytes) :
    Chains s.setAside.machine s.setAside.freeList A.setAside.lists ∧
      WroteIn A.rem s.machine s.setAside.machine := by
  unfold Pool.setAside Arena.setAside
  rw [sim.bytesLeft ledger, sim.start]
  by_cases some : 0 < A.rem.length
  · have pointer : pointerSize ≤ A.rem.length := Nat.le_of_dvd some ledger.aligned
    have within : Interval.Within ⟨A.rem.start, pointerSize⟩ A.rem :=
      ⟨le_refl _, Nat.add_le_add_left pointer _⟩
    simp only [if_pos some, getFreeList_eq some short]
    refine ⟨Pool.chains_push sim.chains ledger (classOf_lt short) (ledger.rem_pos some)
      fun i small q node => (ledger.rem_separate_node small node).mono within (.refl _),
      (wroteIn_storePtr _ _ _).mono within⟩
  · simp only [if_neg some]
    exact ⟨sim.chains, WroteIn.refl _ _⟩

/-- The bytes asked for, as the source computes them. -/
theorem bytesToGet (sim : Sim s A) (ledger : Ledger A live regions) (small : c < freeListSize) :
    SizeT.add (SizeT.mul 2 (SizeT.mul (classSize c) 20)) (roundUp (s.heapSize >>> 4)) =
      A.wanted c := by
  have space : addressSpace = 18446744073709551616 := rfl
  have size := classSize_lt small
  have heap := ledger.heap_lt
  simp only [maxBytes] at size
  rw [mul_twenty small, SizeT.mul_eq (by omega), sim.heap, Nat.shiftRight_eq_div_pow,
    roundUp_eq (by omega), SizeT.add_eq (by omega), Arena.wanted]
  omega

/-- Without room for a block neither carving branch is taken. -/
theorem not_le_bytesLeft (sim : Sim s A) (ledger : Ledger A live regions)
    (small : c < freeListSize) (short : A.rem.length < classSize c) :
    ¬SizeT.mul (classSize c) 20 ≤ SizeT.sub s.endFree s.startFree ∧
      ¬classSize c ≤ SizeT.sub s.endFree s.startFree := by
  rw [sim.bytesLeft ledger, mul_twenty small]
  omega

/-- A granted request: the new region is carved in the recursive call. -/
theorem allocateChunk_of_granted (sim : Sim s A) (ledger : Ledger A live regions)
    (small : c < freeListSize) (short : A.rem.length < classSize c) (fuel base : Nat) :
    Pool.allocateChunk (classSize c) 20 (fuel + 1) [some base] s =
      Pool.allocateChunk (classSize c) 20 fuel [] (s.setAside.grow (A.wanted c) base) := by
  rcases sim.not_le_bytesLeft ledger small short with ⟨many, one⟩
  rw [← sim.bytesToGet ledger small, ← s.heapSize_setAside, Pool.allocateChunk, if_neg many,
    if_neg one]
  rfl

/-- The search, as `_M_allocate_chunk` makes it. -/
theorem reclaim_eq (sim : Sim s A) (ledger : Ledger A live regions) (small : c < freeListSize)
    (short : A.rem.length < classSize c) :
    Pool.reclaim
        { s.setAside with
          requests := (SizeT.add (SizeT.mul 2 (SizeT.mul (classSize c) 20))
            (roundUp (s.setAside.heapSize >>> 4)), none) :: s.setAside.requests }
        (freeListSize + 1) (classSize c) =
      some ((A.setAside.firstFree c).map (s.setAside.refused (A.wanted c)).reuse) := by
  have chains := (sim.setAside ledger (short.le.trans (classSize_lt small))).1
  rw [s.heapSize_setAside, sim.bytesToGet ledger small]
  exact Chains.reclaim_eq (s := s.setAside.refused (A.wanted c)) chains (by omega)

/-- A refused request: the block found is carved in the recursive call. -/
theorem allocateChunk_of_found (sim : Sim s A) (ledger : Ledger A live regions)
    (small : c < freeListSize) (short : A.rem.length < classSize c) (fuel : Nat) {j : Nat}
    (found : A.setAside.firstFree c = some j) :
    Pool.allocateChunk (classSize c) 20 (fuel + 1) [none] s =
      Pool.allocateChunk (classSize c) 20 fuel [] ((s.setAside.refused (A.wanted c)).reuse j) := by
  rcases sim.not_le_bytesLeft ledger small short with ⟨many, one⟩
  have search := sim.reclaim_eq ledger small short
  rw [Pool.allocateChunk, if_neg many, if_neg one]
  simp only [search, found, Option.map_some]

/-- A refused request without a block to fall back on: there is no chunk. -/
theorem allocateChunk_of_exhausted (sim : Sim s A) (ledger : Ledger A live regions)
    (small : c < freeListSize) (short : A.rem.length < classSize c) (fuel : Nat)
    (exhausted : A.setAside.firstFree c = none) :
    Pool.allocateChunk (classSize c) 20 (fuel + 1) [none] s =
      (.error .badAlloc, (s.setAside.refused (A.wanted c)).dry) := by
  rcases sim.not_le_bytesLeft ledger small short with ⟨many, one⟩
  have search := sim.reclaim_eq ledger small short
  have wanted := sim.bytesToGet ledger small
  rw [← s.heapSize_setAside] at wanted
  rw [Pool.allocateChunk, if_neg many, if_neg one]
  simp only [search, exhausted, Option.map_none]
  rw [wanted]
  rfl

/-- A granted region as the remainder. -/
theorem grow (sim : Sim s A) (ledger : Ledger A live regions) {base : Nat}
    (chains : Chains s.setAside.machine s.setAside.freeList A.setAside.lists)
    (granted : Granted (⟨base, A.wanted c⟩ :: regions)) :
    Sim (s.setAside.grow (A.wanted c) base) (A.setAside.grow c base) := by
  have bound := (granted.bounds _ List.mem_cons_self).2.2
  have heap := granted.totalLength_lt
  rw [totalLength_cons, ← ledger.heap, Nat.add_comm] at heap
  refine ⟨chains, rfl, ?_, ?_⟩
  · rw [Pool.grow, SizeT.add_eq bound, Arena.grow, A.wanted_setAside]
  · rw [Pool.grow, s.heapSize_setAside, sim.heap, SizeT.add_eq heap, Arena.grow,
      A.wanted_setAside, A.heapSize_setAside]

/-- A free block as the remainder. -/
theorem reuse (sim : Sim s A) (ledger : Ledger A live regions) {j : Nat} (n : Nat)
    (short : A.rem.length ≤ maxBytes)
    (chains : Chains s.setAside.machine s.setAside.freeList A.setAside.lists)
    (found : A.setAside.firstFree c = some j) :
    Sim ((s.setAside.refused n).reuse j) (A.setAside.reuse j) := by
  rcases Arena.firstFree_eq_some found with ⟨_, small, nonempty⟩
  rcases List.exists_cons_of_ne_nil nonempty with ⟨p, rest, list⟩
  have bounds := (ledger.setAside short).node_bounds small (list ▸ List.mem_cons_self)
  have head := chains.head_eq small list
  have heap : s.setAside.heapSize = A.setAside.heapSize := by
    rw [s.heapSize_setAside, sim.heap, A.heapSize_setAside]
  have same : (s.setAside.refused n).freeList j = p := head
  rw [Pool.reuse, same, Arena.reuse, list, SizeT.add_eq bounds.2]
  exact ⟨chains.pop small list, rfl, rfl, heap⟩

/-- No remainder, after the exception. -/
theorem dry (sim : Sim s A) (n : Nat)
    (chains : Chains s.setAside.machine s.setAside.freeList A.setAside.lists) :
    Sim (s.setAside.refused n).dry A.setAside := by
  have none : A.setAside.rem = ⟨0, 0⟩ := by
    unfold Arena.setAside
    split <;> rfl
  refine ⟨chains, ?_, ?_, ?_⟩
  · rw [none]
    rfl
  · rw [none]
    rfl
  · exact (s.heapSize_setAside.trans sim.heap).trans A.heapSize_setAside.symm

end Sim

/-- What the pool is after `obtain`: the arena in memory, with stores in the old
remainder only. -/
structure Obtained (A : Arena) (c : Nat) (answer : Option Nat) (s s' : Pool) : Prop where
  sim : Sim s' (A.obtain c answer).1
  wrote : WroteIn A.rem s.machine s'.machine
  forceNew : s'.forceNew = s.forceNew

namespace Sim

variable {s : Pool} {A : Arena} {live regions : List Interval} {c : Nat} {answer : Option Nat}

/-- `_M_allocate_chunk` makes the remainder hold a block as `obtain` does, and
carves it, or throws; one recursive call is enough. -/
theorem allocateChunk_eq (sim : Sim s A) (ledger : Ledger A live regions)
    (small : c < freeListSize) (granted : Granted (A.regionsAfter c answer regions)) :
    ∃ s', Obtained A c answer s s' ∧ ∀ fuel,
      Pool.allocateChunk (classSize c) 20 (fuel + 2) [answer] s =
        match A.obtain c answer with
        | (A', true) =>
            (.ok (A'.rem.start, A'.carved c),
              { s' with startFree := A'.rem.start + A'.carved c * classSize c })
        | (_, false) => (.error .badAlloc, s') := by
  have ledger' := ledger.obtain small granted
  by_cases room : classSize c ≤ A.rem.length
  · have obtained : A.obtain c answer = (A, true) := if_pos room
    refine ⟨s, ⟨obtained ▸ sim, WroteIn.refl _ _, rfl⟩, fun fuel => ?_⟩
    rw [sim.allocateChunk_of_room ledger small room (fuel + 1) [answer], obtained]
  · have short := Nat.lt_of_not_le room
    have room' := A.room_obtain c answer
    rcases sim.setAside ledger (short.le.trans (classSize_lt small)) with ⟨chains, wrote⟩
    cases answer with
    | some base =>
      have obtained : A.obtain c (some base) = (A.setAside.grow c base, true) := if_neg room
      have regions' : A.regionsAfter c (some base) regions = ⟨base, A.wanted c⟩ :: regions :=
        if_neg room
      rw [obtained] at ledger' room'
      rw [regions'] at granted
      have grown := sim.grow ledger (c := c) chains granted
      refine ⟨s.setAside.grow (A.wanted c) base,
        ⟨obtained ▸ grown, wrote, s.forceNew_setAside⟩, fun fuel => ?_⟩
      rw [sim.allocateChunk_of_granted ledger small short,
        grown.allocateChunk_of_room ledger' small (room' rfl) fuel [], obtained]
    | none =>
      cases found : A.setAside.firstFree c with
      | some j =>
        have obtained : A.obtain c none = (A.setAside.reuse j, true) := by
          rw [Arena.obtain, if_neg room]
          simp only [found]
        rw [obtained] at ledger' room'
        have reused := sim.reuse ledger (A.wanted c) (short.le.trans (classSize_lt small)) chains found
        refine ⟨(s.setAside.refused (A.wanted c)).reuse j,
          ⟨obtained ▸ reused, wrote, s.forceNew_setAside⟩, fun fuel => ?_⟩
        rw [sim.allocateChunk_of_found ledger small short (fuel + 1) found,
          reused.allocateChunk_of_room ledger' small (room' rfl) fuel [], obtained]
      | none =>
        have obtained : A.obtain c none = (A.setAside, false) := by
          rw [Arena.obtain, if_neg room]
          simp only [found]
        have dried := sim.dry (A.wanted c) chains
        refine ⟨(s.setAside.refused (A.wanted c)).dry,
          ⟨obtained ▸ dried, wrote, s.forceNew_setAside⟩, fun fuel => ?_⟩
        rw [sim.allocateChunk_of_exhausted ledger small short (fuel + 1) found, obtained]

end Sim

end TorchTest.PoolAlloc
