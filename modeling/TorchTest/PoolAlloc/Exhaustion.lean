import TorchTest.PoolAlloc.Accounting

/-!
# When the system refuses

A request fails in the middle of `_M_allocate_chunk`: the left-over piece is
already filed, and no larger free block was found. `exhausted_of_reachable` says when
this happens (`World.Exhausted`), what is left behind (`World.Drained`: the
remainder has become a free block, and nothing else has changed), and that no
number of such failures keeps a later request from a free block of its own or of
a larger class.
-/

namespace TorchTest.PoolAlloc

namespace Arena

variable {A : Arena} {c i : Nat} {answer : Option Nat}

/-- No class from `c` on has a free block. -/
theorem firstFree_eq_none :
    A.firstFree c = none ↔ ∀ i, c ≤ i → i < freeListSize → A.lists i = [] := by
  rw [firstFree, List.find?_eq_none]
  simp only [List.mem_range'_1, Bool.not_eq_true', Bool.not_eq_false, List.isEmpty_iff, and_imp]
  constructor
  · intro none i above inside
    exact none i above (by omega)
  · intro none i above inside
    exact none i above (by omega)

/-- Setting the remainder aside puts it in front of the list of its length. -/
theorem lists_setAside_eq (A : Arena) (aligned : align ∣ A.rem.length) (i : Nat) :
    A.setAside.lists i =
      if classSize i = A.rem.length then A.rem.start :: A.lists i else A.lists i := by
  unfold setAside
  by_cases some : 0 < A.rem.length
  · have size := classSize_classOf some aligned
    rw [if_pos some]
    rcases eq_or_ne i (classOf A.rem.length) with rfl | other
    · rw [if_pos size]
      exact setList_self ..
    · have different : classSize i ≠ A.rem.length := by
        intro same
        exact other (by rw [← same, classOf_classSize])
      rw [if_neg different]
      exact setList_of_ne A _ other
  · have different : classSize i ≠ A.rem.length := by
      have positive := classSize_pos i
      omega
    rw [if_neg some, if_neg different]

/-- No interval is obtained when the remainder is too short, the system refuses and
no free block is large enough; the remainder is set aside then. -/
theorem obtain_eq_false :
    (A.obtain c answer).2 = false ↔
      A.rem.length < classSize c ∧ answer = none ∧ A.setAside.firstFree c = none := by
  unfold Arena.obtain
  by_cases room : classSize c ≤ A.rem.length
  · simp [room, Nat.not_lt.mpr room]
  · have short := Nat.lt_of_not_le room
    rw [if_neg room]
    cases answer with
    | some base => simp
    | none => cases found : A.setAside.firstFree c <;> simp [short]

theorem obtain_of_false (failed : (A.obtain c answer).2 = false) :
    (A.obtain c answer).1 = A.setAside := by
  rcases obtain_eq_false.mp failed with ⟨short, rfl, found⟩
  rw [Arena.obtain, if_neg (Nat.not_le.mpr short)]
  simp only [found]

/-- A left-over piece is too short to be found. -/
theorem firstFree_setAside (empty : A.lists c = []) (short : A.rem.length < classSize c)
    (aligned : align ∣ A.rem.length) :
    A.setAside.firstFree c = none ↔ ∀ i, c < i → i < freeListSize → A.lists i = [] := by
  rw [firstFree_eq_none]
  constructor
  · intro none i larger inside
    rw [← A.lists_setAside short aligned larger.le]
    exact none i larger.le inside
  · intro none i above inside
    rw [A.lists_setAside short aligned above]
    rcases above.eq_or_lt with rfl | larger
    · exact empty
    · exact none i larger inside

/-- A request fails when nothing is left: no free block of its class or a larger
one, no room in the remainder, and no answer from the system. -/
theorem allocate_eq_none (aligned : align ∣ A.rem.length) :
    (A.allocate c answer).2 = none ↔
      A.lists c = [] ∧ A.rem.length < classSize c ∧ answer = none ∧
        ∀ i, c < i → i < freeListSize → A.lists i = [] := by
  by_cases empty : A.lists c = []
  · have failed : (A.allocate c answer).2 = none ↔ (A.obtain c answer).2 = false := by
      rw [A.allocate_of_nil empty]
      rcases A.obtain c answer with ⟨A', _ | _⟩ <;> simp
    rw [failed, obtain_eq_false]
    constructor
    · rintro ⟨short, refused, found⟩
      exact ⟨empty, short, refused, (firstFree_setAside empty short aligned).mp found⟩
    · rintro ⟨_, short, refused, above⟩
      exact ⟨short, refused, (firstFree_setAside empty short aligned).mpr above⟩
  · rcases List.exists_cons_of_ne_nil empty with ⟨p, rest, list⟩
    rw [A.allocate_of_cons list]
    simp [list]

/-- A request that fails has set the remainder aside. -/
theorem allocate_of_none (aligned : align ∣ A.rem.length)
    (failed : (A.allocate c answer).2 = none) : (A.allocate c answer).1 = A.setAside := by
  rcases (allocate_eq_none aligned).mp failed with ⟨empty, short, refused, above⟩
  have dry := obtain_eq_false.mpr
    ⟨short, refused, (firstFree_setAside empty short aligned).mpr above⟩
  rw [A.allocate_of_nil empty, ← obtain_of_false dry]
  rcases case : A.obtain c answer with ⟨A', _ | _⟩
  · rfl
  · rw [case] at dry
    cases dry

theorem rem_setAside (A : Arena) : A.setAside.rem = ⟨0, 0⟩ := by
  unfold setAside
  split <;> rfl

end Arena

/-! ## In the pool -/

namespace World

/-- Nothing is left for a request of class `c`: its list is empty, the remainder is
shorter than a block, the system refuses, and every list of larger blocks is empty. -/
def Exhausted (w : World) (c : Nat) (answer : Option Nat) : Prop :=
  w.pool.freeList c = 0 ∧ w.pool.remainder.length < classSize c ∧ answer = none ∧
    ∀ i, c < i → i < freeListSize → w.pool.freeList i = 0

/-- From `w` to `w'` the remainder has become the head of the list for its length,
and there is none any more; the other lists, the live blocks with their bytes, and
`_S_heap_size` are as they were. -/
structure Drained (w w' : World) : Prop where
  remainder : w'.pool.startFree = 0 ∧ w'.pool.endFree = 0
  filed : ∀ lists, Chains w.pool.machine w.pool.freeList lists →
    Chains w'.pool.machine w'.pool.freeList fun i =>
      if classSize i = w.pool.remainder.length then w.pool.startFree :: lists i else lists i
  class_of_length : 0 < w.pool.remainder.length →
    ∃ i < freeListSize, classSize i = w.pool.remainder.length
  live : w'.live = w.live
  bytes : ∀ b ∈ w.live, Machine.AgreeOn b.span w.pool.machine w'.pool.machine
  heapSize : w'.pool.heapSize = w.pool.heapSize

namespace Inv

variable {w : World} {A : Arena} {T : ElemType} {n c : Nat} {answer : Option Nat}

/-- What is left, in the pool and in the arena. -/
theorem exhausted_iff (inv : w.Inv A) (small : c < freeListSize) :
    w.Exhausted c answer ↔ (A.allocate c answer).2 = none := by
  rw [Arena.allocate_eq_none inv.ledger.aligned, Exhausted, inv.sim.remainder_eq,
    inv.sim.chains.eq_zero_iff small]
  refine and_congr_right fun _ => and_congr_right fun _ => and_congr_right fun _ => ?_
  exact forall_congr' fun i => imp_congr_right fun _ => forall_congr' fun inside =>
    inv.sim.chains.eq_zero_iff inside

/-- A request of up to 128 bytes throws exactly when nothing is left for it, and
returns otherwise. -/
theorem failed_iff (inv : w.Inv A) (positive : n ≠ 0) (small : n * T.size ≤ maxBytes)
    (ok : w.SystemOk (.allocate T n answer)) :
    ((w.step (.allocate T n answer)).2 = .failed .badAlloc ↔
        w.Exhausted (classOf (n * T.size)) answer) ∧
      (¬w.Exhausted (classOf (n * T.size)) answer →
        ∃ p, (w.step (.allocate T n answer)).2 = .returned p) := by
  rw [(inv.step_small positive small ok).2.1, inv.exhausted_iff (classOf_lt small)]
  cases (A.allocate (classOf (n * T.size)) answer).2 with
  | none => simp [Result.ofOption]
  | some p => simp [Result.ofOption]

/-- A request that throws leaves the remainder filed and the rest as it was. -/
theorem drained (inv : w.Inv A) (positive : n ≠ 0) (small : n * T.size ≤ maxBytes)
    (ok : w.SystemOk (.allocate T n answer))
    (thrown : (w.step (.allocate T n answer)).2 = .failed .badAlloc) :
    w.Drained (w.step (.allocate T n answer)).1 := by
  have aligned := inv.ledger.aligned
  rcases inv.step_small positive small ok with ⟨inv', result, bytes⟩
  have failed : (A.allocate (classOf (n * T.size)) answer).2 = none := by
    rw [thrown] at result
    cases case : (A.allocate (classOf (n * T.size)) answer).2 with
    | none => rfl
    | some p =>
      rw [case] at result
      cases result
  have short := ((Arena.allocate_eq_none aligned).mp failed).2.1
  rw [Arena.allocate_of_none aligned failed] at inv'
  have start := inv'.sim.start
  have stop := inv'.sim.stop
  rw [A.rem_setAside] at start stop
  have live : (w.step (.allocate T n answer)).1.live = w.live := by
    rcases w.step_allocate_cases T n answer with ⟨p, returned, _⟩ | ⟨f, _, live⟩
    · rw [thrown] at returned
      cases returned
    · exact live
  refine
    { remainder := ⟨start, stop⟩, filed := fun lists chains => ?_, class_of_length := ?_,
      live := live, bytes := bytes, heapSize := ?_ }
  · intro i inside
    have same : lists i = A.lists i := (chains i inside).unique (inv.sim.chains i inside)
    have filed := inv'.sim.chains i inside
    rw [A.lists_setAside_eq aligned] at filed
    simp only [same, inv.sim.remainder_eq, inv.sim.start]
    exact filed
  · rw [inv.sim.remainder_eq]
    intro some
    refine ⟨classOf A.rem.length, ?_, classSize_classOf some aligned⟩
    exact classOf_lt (short.le.trans (classSize_lt (classOf_lt small)))
  · rw [inv'.sim.heap, A.heapSize_setAside, inv.sim.heap]

/-- A request that the system refuses is one that it is entitled to refuse. -/
theorem systemOk_refused (inv : w.Inv A) (positive : n ≠ 0) (small : n * T.size ≤ maxBytes) :
    w.SystemOk (.allocate T n none) := by
  have regions : (w.step (.allocate T n none)).1.pool.regions = w.pool.regions := by
    rw [pool_step_allocate, inv.regions_allocate positive small none, Arena.regionsOf,
      Arena.regionsAfter]
    split_ifs <;> rfl
  have direct : (w.step (.allocate T n none)).1.direct = w.direct := by
    rcases w.step_allocate_cases T n none with ⟨p, _, live⟩ | ⟨f, _, live⟩
    · rw [if_neg positive] at live
      have pooled : Block.Pooled ⟨T, n, p⟩ := small
      unfold World.direct
      rw [live, List.filter_cons_of_neg (by simpa using pooled)]
    · unfold World.direct
      rw [live]
  unfold SystemOk
  rw [regions, direct]
  exact inv.system

end Inv

/-- In every reachable state a request of 1 to 128 bytes throws exactly when nothing
is left for it, and then the remainder has been filed and nothing else changed. After
any further run, failures included, a free block of the class or of a larger one is
enough for a request, even if the system refuses. -/
theorem exhausted_of_reachable {w : World} (reachable : w.Reachable) :
    (∀ T n answer, n ≠ 0 → n * T.size ≤ maxBytes → w.SystemOk (.allocate T n answer) →
        ((w.step (.allocate T n answer)).2 = .failed .badAlloc ↔
            w.Exhausted (classOf (n * T.size)) answer) ∧
          (¬w.Exhausted (classOf (n * T.size)) answer →
            ∃ p, (w.step (.allocate T n answer)).2 = .returned p) ∧
          ((w.step (.allocate T n answer)).2 = .failed .badAlloc →
            w.Drained (w.step (.allocate T n answer)).1)) ∧
      ∀ es, Admissible step Valid w es → ∀ T n, n ≠ 0 → n * T.size ≤ maxBytes →
        (∃ i < freeListSize, classOf (n * T.size) ≤ i ∧ (after step w es).pool.freeList i ≠ 0) →
        ∃ p, ((after step w es).step (.allocate T n none)).2 = .returned p := by
  constructor
  · rcases reachable.inv with ⟨A, inv⟩
    intro T n answer positive small ok
    rcases inv.failed_iff positive small ok with ⟨iff, otherwise⟩
    exact ⟨iff, otherwise, inv.drained positive small ok⟩
  · rintro es run T n positive small ⟨i, inside, above, free⟩
    rcases (reachable.after run).inv with ⟨A, inv⟩
    apply (inv.failed_iff positive small (inv.systemOk_refused positive small)).2
    rintro ⟨own, _, _, larger⟩
    rcases above.eq_or_lt with rfl | above
    · exact free own
    · exact free (larger i above inside)

/-- Two blocks of 128 bytes used up a remainder of 320. A third one is refused twice;
the 64 bytes left over were filed the first time, and serve 24 bytes afterwards. -/
theorem exhausted_of_reachable_sample :
    let w := after step (init Machine.zero) (sampleRun.take 4)
    let refused : Event := .allocate .buffer 1 none
    w.Exhausted 15 none ∧ w.Drained (w.step refused).1 ∧
      ∃ p, ((after step w [refused, refused]).step (.allocate .long 3 none)).2 = .returned p := by
  intro w refused
  have reachable : w.Reachable := ⟨Machine.zero, sampleRun.take 4, by decide +kernel, rfl⟩
  rcases exhausted_of_reachable reachable with ⟨each, later⟩
  rcases each .buffer 1 none (by decide) (by decide) (by decide +kernel) with ⟨iff, _, drained⟩
  have thrown : (w.step refused).2 = .failed .badAlloc := by decide +kernel
  exact ⟨iff.mp thrown, drained thrown, later [refused, refused] (by decide +kernel) .long 3
    (by decide) (by decide) ⟨7, by decide, by decide, by decide +kernel⟩⟩

end World

end TorchTest.PoolAlloc
