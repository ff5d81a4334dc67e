import TorchTest.PoolAlloc.Accounting
import TorchTest.PoolAlloc.Arithmetic

/-!
# A refill serves the next requests

A refill for a class carves an interval (`Pool.Refills`: the remainder, a region
granted, or a larger free block) into as many blocks as fit, at most twenty, hands
out the first and threads the others in address order (`Pool.Carved`). So the
refilling request and the next ones of the class, whatever their types, get the
blocks one after the other. `refilled_of_reachable` puts this together with what the
code needs for it: one recursive call at most, no computation that wraps, and a
loop that ends.
-/

namespace TorchTest.PoolAlloc

/-- The interval that a refill for class `c` carves, given the system's answer. -/
inductive Pool.Refills (s : Pool) (c : Nat) : Option Nat → Interval → Prop
  | remainder {answer : Option Nat} (room : classSize c ≤ s.remainder.length) :
      Pool.Refills s c answer s.remainder
  | granted {base : Nat} (short : s.remainder.length < classSize c) :
      Pool.Refills s c (some base) ⟨base, 40 * classSize c + roundUp (s.heapSize >>> 4)⟩
  | reclaimed {i : Nat} (short : s.remainder.length < classSize c) (larger : c < i)
      (inside : i < freeListSize) (free : s.freeList i ≠ 0)
      (first : ∀ j, c < j → j < i → s.freeList j = 0) :
      Pool.Refills s c none ⟨s.freeList i, classSize i⟩

/-- `k` blocks of class `c` were carved off the front of `I`, and the first of them
handed out: the list holds the others, the remainder is the rest of `I`. -/
structure Pool.Carved (s : Pool) (c k : Nat) (I : Interval) : Prop where
  list : Chain s.machine.loadPtr (s.freeList c)
    (progression (I.start + classSize c) (classSize c) (k - 1))
  start : s.startFree = I.start + k * classSize c
  stop : s.endFree = I.stop

/-- `k` requests for blocks of class `c`, and writes of clients between them. -/
inductive Requests (c : Nat) : Nat → List Event → Prop
  | nil : Requests c 0 []
  | allocate {k : Nat} {es : List Event} {T : ElemType} {n : Nat} (answer : Option Nat) :
      n ≠ 0 → n * T.size ≤ maxBytes → classOf (n * T.size) = c → Requests c k es →
      Requests c (k + 1) (.allocate T n answer :: es)
  | write {k : Nat} {es : List Event} (a : Nat) (v : UInt8) :
      Requests c k es → Requests c k (.write a v :: es)

/-- Requests of a class take its list from the front. -/
theorem Requests.outputs_serve {c k : Nat} {es : List Event} {A : Arena}
    (requests : Requests c k es) (enough : k ≤ (A.lists c).length) :
    (outputs Arena.serve A es).filterMap Result.ptr? = (A.lists c).take k := by
  induction requests generalizing A with
  | nil => rfl
  | @allocate k es T n answer positive small cls requests ih =>
    rcases list : A.lists c with _ | ⟨p, rest⟩
    · rw [list] at enough
      exact absurd enough (Nat.not_succ_le_zero k)
    · have served := A.serve_small positive small answer
      rw [cls, A.allocate_of_cons list] at served
      rw [list, List.length_cons] at enough
      have later := ih (A := A.setList c rest) (by
        rw [Arena.setList_self]
        exact Nat.le_of_succ_le_succ enough)
      rw [Arena.setList_self] at later
      rw [outputs_cons, served, List.take_succ_cons, ← later]
      rfl
  | write a v requests ih => exact ih enough

/-- The classes passed over by the search have no free block. -/
theorem Arena.lists_of_firstFree {A : Arena} {c i j : Nat} (found : A.firstFree c = some i)
    (above : c ≤ j) (below : j < i) : A.lists j = [] := by
  have passed := (List.find?_range'_eq_some.mp found).2.2 j above below
  simpa using passed

namespace Sim

variable {s : Pool} {A A' : Arena} {live regions : List Interval} {c : Nat} {answer : Option Nat}

/-- The interval that the arena obtains is the one that the pool carves. -/
theorem refills (sim : Sim s A) (ledger : Ledger A live regions) (empty : A.lists c = [])
    (obtained : A.obtain c answer = (A', true)) :
    s.Refills c answer A'.rem := by
  have space : addressSpace = 18446744073709551616 := rfl
  have heap := ledger.heap_lt
  have remainder := sim.remainder_eq
  unfold Arena.obtain at obtained
  by_cases room : classSize c ≤ A.rem.length
  · rw [if_pos room] at obtained
    cases obtained
    rw [← remainder]
    exact .remainder (remainder ▸ room)
  · have short := Nat.lt_of_not_le room
    rw [if_neg room] at obtained
    cases answer with
    | some base =>
      cases obtained
      have wanted : A.setAside.wanted c = 40 * classSize c + roundUp (s.heapSize >>> 4) := by
        rw [A.wanted_setAside, Arena.wanted, sim.heap, Nat.shiftRight_eq_div_pow,
          roundUp_eq (by omega)]
      change s.Refills c (some base) ⟨base, A.setAside.wanted c⟩
      rw [wanted]
      exact .granted (remainder ▸ short)
    | none =>
      cases found : A.setAside.firstFree c with
      | none => simp [found] at obtained
      | some i =>
        simp only [found] at obtained
        cases obtained
        rcases Arena.firstFree_eq_some found with ⟨above, inside, nonempty⟩
        have aside : ∀ j, c ≤ j → A.setAside.lists j = A.lists j := fun j =>
          A.lists_setAside short ledger.aligned
        have larger : c < i := by
          rcases above.eq_or_lt with rfl | larger
          · rw [aside c (le_refl c), empty] at nonempty
            exact absurd rfl nonempty
          · exact larger
        rw [aside i above] at nonempty
        rcases List.exists_cons_of_ne_nil nonempty with ⟨p, rest, list⟩
        have head := sim.chains.head_eq inside list
        have rem : (A.setAside.reuse i).rem = ⟨s.freeList i, classSize i⟩ := by
          rw [Arena.reuse, aside i above, list, head]
          rfl
        rw [rem]
        refine .reclaimed (remainder ▸ short) larger inside
          (mt (sim.chains.eq_zero_iff inside).mp nonempty) fun j between below => ?_
        rw [sim.chains.eq_zero_iff (below.trans inside), ← aside j between.le]
        exact Arena.lists_of_firstFree found between.le below

/-- The regions after a refill. -/
theorem regions_refill (sim : Sim s A) (ledger : Ledger A live regions) (small : c < freeListSize)
    (answer : Option Nat) :
    (s.refill (classSize c) [answer]).2.regions = A.regionsAfter c answer s.regions := by
  have requests := (Pool.requests_refill (classSize c) [answer] s).trans
    (sim.requests_allocateChunk ledger small answer)
  rw [Pool.regions, requests, Arena.requestsAfter, Arena.regionsAfter]
  split_ifs
  · rfl
  · cases answer <;> rfl

/-- The pool that looks like a carved arena was carved. -/
theorem carved (sim : Sim s (A.carve c)) (small : c < freeListSize) :
    s.Carved c (A.carved c) A.rem where
  list := by
    have chain := sim.chains c small
    rwa [Arena.carve, Arena.setList_self] at chain
  start := sim.start
  stop := by
    have fits := A.carved_mul_le c
    rw [sim.stop]
    change A.rem.start + A.carved c * classSize c + (A.rem.length - A.carved c * classSize c) =
      A.rem.start + A.rem.length
    omega

end Sim

namespace World

/-- In every reachable state a refill of an empty list, unless it throws, carves
blocks off the front of one interval, one to twenty of them: `_M_allocate_chunk`
calls itself at most once, nothing wraps and the loop ends. The request that made it
and the next ones of the class, as many as there are blocks, are served with the
blocks in address order. -/
theorem refilled_of_reachable {w : World} (reachable : w.Reachable) {c : Nat}
    (small : c < freeListSize) (empty : w.pool.freeList c = 0) {answer : Option Nat}
    (granted : Granted (w.direct ++ (w.pool.refill (classSize c) [answer]).2.regions))
    (unthrown : (w.pool.refill (classSize c) [answer]).1 ≠ .error .badAlloc) :
    ∃ I k, w.pool.Refills c answer I ∧ k = min 20 (I.length / classSize c) ∧ 1 ≤ k ∧
      (∀ fuel, ∃ s, Pool.allocateChunk (classSize c) 20 (fuel + 2) [answer] w.pool =
        (.ok (I.start, k), s)) ∧
      (∀ op ∈ w.pool.refillOps (classSize c) [answer], op.Fits) ∧
      (w.pool.refill (classSize c) [answer]).1 = .ok I.start ∧
      (w.pool.refill (classSize c) [answer]).2.Carved c k I ∧
      ∀ T n j es, n ≠ 0 → n * T.size ≤ maxBytes → classOf (n * T.size) = c →
        Requests c j es → j < k → Admissible step Valid w (.allocate T n answer :: es) →
          (outputs step w (.allocate T n answer :: es)).filterMap Result.ptr? =
            progression I.start (classSize c) (j + 1) := by
  rcases reachable.inv with ⟨A, inv⟩
  have list := (inv.sim.chains.eq_zero_iff small).mp empty
  rw [inv.sim.regions_refill inv.ledger small] at granted
  have regions := granted.sublist (List.sublist_append_right w.direct _)
  have ops := inv.sim.fits_refillOps inv.ledger small regions
  have regionsOf : A.regionsOf c answer w.pool.regions = A.regionsAfter c answer w.pool.regions :=
    if_pos list
  rcases inv.sim.allocateChunk_eq inv.ledger small regions with ⟨s, _, chunk⟩
  rcases inv.sim.refill_eq inv.ledger small list (regionsOf ▸ regions) with ⟨s', served, refill⟩
  have allocate := A.allocate_of_nil list answer
  rcases obtained : A.obtain c answer with ⟨A', _ | _⟩
  · rw [obtained] at allocate
    rw [refill, allocate] at unthrown
    exact absurd rfl unthrown
  · rw [obtained] at allocate chunk
    have room := A.room_obtain c answer
    rw [obtained] at room
    have carved := A'.carved_pos (room rfl)
    have sim := served.sim
    rw [allocate] at sim refill
    rw [refill]
    refine ⟨A'.rem, A'.carved c, inv.sim.refills inv.ledger list obtained, rfl, carved,
      fun fuel => ⟨_, chunk fuel⟩, ops, rfl, sim.carved small, ?_⟩
    intro T n j es positive bytes cls requests fewer run
    -- the first request carves, the others take the blocks that it threaded
    have first := A.serve_small positive bytes answer
    rw [cls, allocate] at first
    have blocks : (A'.carve c).lists c =
        progression (A'.rem.start + classSize c) (classSize c) (A'.carved c - 1) :=
      Arena.setList_self ..
    have enough : j ≤ A'.carved c - 1 := Nat.le_sub_one_of_lt fewer
    have later := requests.outputs_serve (A := A'.carve c) (by
      rwa [blocks, length_progression])
    rw [blocks, take_progression enough] at later
    rw [(run_refines run inv).2, outputs_cons, first, progression_succ, ← later]
    rfl

/-- With 64 bytes filed and the system refusing, two requests for 24 bytes get the
first 48 of them, with a client's write in between. -/
theorem refilled_of_reachable_sample :
    let w := after step (init Machine.zero) (sampleRun.take 5)
    ∃ I k, w.pool.Refills 2 none I ∧ (w.pool.refill 24 [none]).2.Carved 2 k I ∧
      (outputs step w [.allocate .long 3 none, .write 4675 1, .allocate .long 3 none]).filterMap
        Result.ptr? = progression I.start 24 2 := by
  intro w
  have reachable : w.Reachable := ⟨Machine.zero, sampleRun.take 5, by decide +kernel, rfl⟩
  rcases @refilled_of_reachable w reachable 2 (by decide) (by decide +kernel) none
    (by decide +kernel) (by decide +kernel) with
    ⟨I, k, refills, count, _, _, _, _, carved, served⟩
  have two : 1 < k := by
    cases refills with
    | remainder room => exact absurd room (by decide +kernel)
    | @reclaimed i short larger inside free first =>
      have only : ∀ i < freeListSize, 2 < i → w.pool.freeList i ≠ 0 → i = 7 := by decide +kernel
      rw [only i inside larger free] at count
      rw [count]
      decide
  exact ⟨I, k, refills, carved, served .long 3 1 _ (by decide) (by decide) rfl
    (.write _ _ (.allocate none (by decide) (by decide) rfl .nil)) two (by decide +kernel)⟩

end World

end TorchTest.PoolAlloc
