import Mathlib.Data.Nat.Log
import Mathlib.Tactic.Ring
import TorchTest.PoolAlloc.Elementary

/-!
# How much memory is asked for

A refill asks for forty blocks and a sixteenth of what was obtained before, so that
`_S_heap_size` grows by a factor of at least 17/16 with every region. The number of
regions is therefore logarithmic in the heap (`regions_of_run`), whatever is refused
in between.

What has been obtained is bounded by what was live. A class never has more blocks in
circulation than its peak and the nineteen spare ones of a refill, up to the pieces
that were set aside, one of at most 120 bytes for each region; the remainder is at
most twenty blocks and a sixteenth of the heap. This bounds the heap by the peaks
(`heapSize_of_run`), as long as nothing is refused.
-/

namespace TorchTest.PoolAlloc

/-! ## Geometric growth -/

/-- Each region makes the heap grow by a sixteenth. -/
def Geometric (A : Arena) (_ regions : List Interval) : Prop :=
  5105 * 17 ^ regions.length ≤ 16 ^ regions.length * (A.heapSize + 5105)

/-- Growing by a sixteenth twelve times is more than doubling. -/
theorem doubling (k : Nat) : 2 ^ (k / 12) * 16 ^ k ≤ 17 ^ k := by
  have split := Nat.div_add_mod k 12
  have twelve : (2 * 16 ^ 12) ^ (k / 12) ≤ (17 ^ 12) ^ (k / 12) :=
    Nat.pow_le_pow_left (by decide) _
  have rest : 16 ^ (k % 12) ≤ 17 ^ (k % 12) := Nat.pow_le_pow_left (by decide) _
  calc 2 ^ (k / 12) * 16 ^ k
      = 2 ^ (k / 12) * 16 ^ (12 * (k / 12) + k % 12) := by rw [split]
    _ = (2 * 16 ^ 12) ^ (k / 12) * 16 ^ (k % 12) := by rw [pow_add, pow_mul, mul_pow, mul_assoc]
    _ ≤ (17 ^ 12) ^ (k / 12) * 17 ^ (k % 12) := Nat.mul_le_mul twelve rest
    _ = 17 ^ (12 * (k / 12) + k % 12) := by rw [pow_add, pow_mul]
    _ = 17 ^ k := by rw [split]

namespace Geometric

variable {A : Arena} {live regions : List Interval} {c : Nat}

/-- A region is at least forty blocks and a sixteenth of the heap. -/
theorem grow (geometric : Geometric A live regions) (c base : Nat) :
    Geometric (A.grow c base) live (⟨base, A.wanted c⟩ :: regions) := by
  have more : 17 * (A.heapSize + 5105) ≤ 16 * (A.heapSize + A.wanted c + 5105) := by
    simp only [Arena.wanted, classSize, align]
    omega
  unfold Geometric at *
  calc 5105 * 17 ^ (regions.length + 1)
      = 17 * (5105 * 17 ^ regions.length) := by ring
    _ ≤ 17 * (16 ^ regions.length * (A.heapSize + 5105)) := Nat.mul_le_mul_left 17 geometric
    _ = 16 ^ regions.length * (17 * (A.heapSize + 5105)) := by ring
    _ ≤ 16 ^ regions.length * (16 * (A.heapSize + A.wanted c + 5105)) :=
        Nat.mul_le_mul_left _ more
    _ = 16 ^ (regions.length + 1) * (A.heapSize + A.wanted c + 5105) := by ring

/-- No other operation changes the heap or the regions. -/
theorem kept : Kept True Geometric where
  perm _ geometric := geometric
  release _ geometric := geometric
  pop _ _ geometric := geometric
  setAside {A live regions} _ _ geometric := by
    unfold Geometric at *
    rwa [A.heapSize_setAside]
  grow _ _ geometric := geometric.grow _ _
  reuse _ _ _ _ geometric := geometric
  carve _ _ _ geometric := geometric

/-- Twelve regions double the heap. -/
theorem two_pow_le (geometric : Geometric A live regions) :
    2 ^ (regions.length / 12) ≤ A.heapSize / 5105 + 1 := by
  have scaled : 16 ^ regions.length * (5105 * 2 ^ (regions.length / 12)) ≤
      16 ^ regions.length * (A.heapSize + 5105) := by
    calc 16 ^ regions.length * (5105 * 2 ^ (regions.length / 12))
        = 5105 * (2 ^ (regions.length / 12) * 16 ^ regions.length) := by ring
      _ ≤ 5105 * 17 ^ regions.length := Nat.mul_le_mul_left _ (doubling _)
      _ ≤ 16 ^ regions.length * (A.heapSize + 5105) := geometric
  have bound := Nat.le_of_mul_le_mul_left scaled (Nat.pow_pos (by decide))
  omega

end Geometric

namespace World

/-- The number of regions is logarithmic in `_S_heap_size`, so there are never more
than 623 of them. -/
theorem regions_of_run (m : Machine) {es : List Event}
    (run : Admissible step Valid (init m) es) :
    (after step (init m) es).pool.regions.length <
        12 * (Nat.log 2 ((after step (init m) es).pool.heapSize / 5105 + 1) + 1) ∧
      (after step (init m) es).pool.regions.length < 624 := by
  have start : Geometric Arena.init [] [] := Nat.le_of_eq (by simp [Arena.init])
  rcases Geometric.kept.run_valid run (inv_init m) start with ⟨inv, geometric⟩
  have doubled := geometric.two_pow_le
  have heap := inv.ledger.heap_lt
  rw [← inv.sim.heap] at doubled heap
  have small := Nat.le_log_of_pow_le (by decide) doubled
  have absolute : Nat.log 2 ((after step (init m) es).pool.heapSize / 5105 + 1) < 52 := by
    apply Nat.log_lt_of_lt_pow (Nat.succ_ne_zero _)
    have space : addressSpace = 18446744073709551616 := rfl
    have power : 2 ^ 52 = 4503599627370496 := by decide
    omega
  omega

/-- After the sample run, with one region granted and two requests refused. -/
theorem regions_of_run_sample :
    Admissible step Valid (init Machine.zero) sampleRun ∧
      (after step (init Machine.zero) sampleRun).pool.regions.length <
        12 * (Nat.log 2 ((after step (init Machine.zero) sampleRun).pool.heapSize / 5105 + 1) + 1) :=
  have run : Admissible step Valid (init Machine.zero) sampleRun := by decide +kernel
  ⟨run, (regions_of_run Machine.zero run).1⟩

end World

/-! ## The heap, class by class -/

theorem totalLength_blocks (i : Nat) (l : List Nat) :
    totalLength (blocks i l) = classSize i * l.length := by
  induction l with
  | nil => rfl
  | cons p l ih =>
    rw [blocks, List.map_cons, totalLength_cons, ← blocks, ih, List.length_cons, Nat.mul_succ,
      Nat.add_comm]

/-- Balanced books add up. -/
theorem Ledger.total {A : Arena} {live regions : List Interval} (ledger : Ledger A live regions)
    (positive : ∀ I ∈ live, 0 < I.length) :
    totalLength live + ∑ c ∈ Finset.range freeListSize, classSize c * (A.lists c).length +
      A.rem.length = A.heapSize := by
  have nodes : ∀ c ∈ Finset.range freeListSize,
      ∑ x ∈ Finset.range addressSpace, cover (blocks c (A.lists c)) x =
        classSize c * (A.lists c).length := by
    intro c inside
    rw [← totalLength_blocks]
    apply sum_range_cover
    intro I member
    rcases List.mem_map.mp member with ⟨p, node, rfl⟩
    exact (ledger.node_bounds (Finset.mem_range.mp inside) node).2.le
  calc totalLength live + ∑ c ∈ Finset.range freeListSize, classSize c * (A.lists c).length +
        A.rem.length
      = ∑ x ∈ Finset.range addressSpace, cover live x +
          ∑ x ∈ Finset.range addressSpace, A.nodeCover x +
          ∑ x ∈ Finset.range addressSpace, A.rem.count x := by
        rw [sum_range_cover fun I member => (ledger.live_bounds member (positive I member)).2.le,
          sum_range_count ledger.rem_lt.le, ← Finset.sum_congr rfl nodes, Finset.sum_comm]
        rfl
    _ = ∑ x ∈ Finset.range addressSpace, cover regions x := by
        rw [← Finset.sum_add_distrib, ← Finset.sum_add_distrib]
        exact Finset.sum_congr rfl fun x _ => ledger.balanced x
    _ = A.heapSize := by
        rw [sum_range_cover fun r member => (ledger.granted.bounds r member).2.2.le, ledger.heap]

namespace World

variable {w : World} {A : Arena}

/-- The live blocks of the pool, class by class. -/
theorem totalLength_pooled (pool : Pool) {l : List Block} (counted : ∀ b ∈ l, b.count ≠ 0) :
    totalLength (pooled ⟨pool, l⟩) =
      ∑ c ∈ Finset.range freeListSize, classSize c * liveIn c ⟨pool, l⟩ := by
  induction l with
  | nil => exact (Finset.sum_eq_zero fun c _ => Nat.mul_zero _).symm
  | cons b l ih =>
    have rest := ih fun b member => counted b (List.mem_cons_of_mem _ member)
    by_cases small : b.Pooled
    · have span := Block.span_of_pooled small (counted b List.mem_cons_self)
      have one : ∑ c ∈ Finset.range freeListSize,
          classSize c * (if classOf b.bytes = c then 1 else 0) = classSize (classOf b.bytes) := by
        rw [Finset.sum_eq_single (classOf b.bytes)]
        · rw [if_pos rfl, Nat.mul_one]
        · exact fun c _ other => by rw [if_neg other.symm, Nat.mul_zero]
        · exact fun outside => absurd (Finset.mem_range.mpr (classOf_lt small)) outside
      simp only [liveIn_cons, small, true_and, Nat.mul_add, Finset.sum_add_distrib, one]
      rw [pooled_cons, if_pos small, totalLength_cons, span, rest, Nat.add_comm]
    · simp only [liveIn_cons, small, false_and, if_false, Nat.add_zero]
      rw [pooled_cons, if_neg small, rest]

/-- The heap is the blocks in circulation and the remainder. -/
theorem Inv.heap_eq (inv : w.Inv A) :
    w.pool.heapSize =
      ∑ c ∈ Finset.range freeListSize, classSize c * (w.liveIn c + (A.lists c).length) +
        A.rem.length := by
  have positive : ∀ I ∈ w.pooled, 0 < I.length := by
    intro I member
    rcases List.mem_map.mp member with ⟨b, filtered, rfl⟩
    rcases List.mem_filter.mp filtered with ⟨live, small⟩
    rw [Block.span_of_pooled (of_decide_eq_true small) (inv.counted b live)]
    exact classSize_pos _
  have total := inv.ledger.total positive
  rw [totalLength_pooled w.pool inv.counted, ← Finset.sum_add_distrib] at total
  rw [inv.sim.heap, ← total]
  simp only [Nat.mul_add]

end World

/-! ## Spare blocks -/

namespace Arena

variable {A : Arena} {c : Nat} {answer : Option Nat} {regions : List Interval}

theorem obtain_of_room (room : classSize c ≤ A.rem.length) (answer : Option Nat) :
    A.obtain c answer = (A, true) := if_pos room

theorem obtain_of_grant (short : ¬classSize c ≤ A.rem.length) (base : Nat) :
    A.obtain c (some base) = (A.setAside.grow c base, true) := if_neg short

theorem obtain_of_refusal (short : ¬classSize c ≤ A.rem.length) :
    A.obtain c none =
      match A.setAside.firstFree c with
      | some i => (A.setAside.reuse i, true)
      | none => (A.setAside, false) := if_neg short

/-- Whether the remainder is as long as a block of class `i`. -/
def filed (A : Arena) (i : Nat) : Nat := if classSize i = A.rem.length then 1 else 0

/-- The remainder is filed in at most one list. -/
theorem sum_filed_le (A : Arena) :
    ∑ i ∈ Finset.range freeListSize, classSize i * A.filed i ≤ A.rem.length := by
  by_cases some : ∃ j, classSize j = A.rem.length
  · rcases some with ⟨j, size⟩
    refine (Finset.sum_le_sum_of_ne_zero fun i _ nonzero => ?_).trans
      (Finset.sum_singleton (fun i => classSize i * A.filed i) j).le |>.trans ?_
    · rw [Finset.mem_singleton]
      by_contra other
      have differ : classSize i ≠ A.rem.length := fun same =>
        other (by rw [← classOf_classSize i, same, ← size, classOf_classSize])
      exact nonzero (by rw [filed, if_neg differ, Nat.mul_zero])
    · rw [filed, if_pos size, size, Nat.mul_one]
  · have none : ∀ i, A.filed i = 0 := fun i => if_neg fun size => some ⟨i, size⟩
    simp [none]

/-- A carved list is short. -/
theorem length_carve_le (A : Arena) (c : Nat) : ((A.carve c).lists c).length ≤ 19 := by
  have spare : (A.carve c).lists c =
      progression (A.rem.start + classSize c) (classSize c) (A.carved c - 1) := A.setList_self c _
  have most : A.carved c ≤ 20 := Nat.min_le_left _ _
  rw [spare, length_progression]
  omega

/-- A request leaves at most nineteen blocks in a list that it found empty, and adds to
no other list but the one in which it files the remainder before a region is granted. -/
theorem exists_spare (regions : List Interval) (small : c < freeListSize) (aligned : align ∣ A.rem.length)
    (kept : A.lists c ≠ [] ∨ classSize c ≤ A.rem.length ∨ answer ≠ none) :
    ∃ spare : Nat → Nat,
      (∀ i, ((A.allocate c answer).1.lists i).length ≤
        if i = c then max ((A.lists i).length - 1) 19 else (A.lists i).length + spare i) ∧
      ∑ i ∈ Finset.range freeListSize, classSize i * spare i + 120 * regions.length ≤
        120 * (A.regionsOf c answer regions).length := by
  by_cases empty : A.lists c = []
  · by_cases room : classSize c ≤ A.rem.length
    · have served : (A.allocate c answer).1 = A.carve c := by
        rw [A.allocate_of_nil empty, obtain_of_room room]
      refine ⟨fun _ => 0, fun i => ?_, ?_⟩
      · rw [served]
        rcases eq_or_ne i c with rfl | other
        · rw [if_pos rfl]
          exact (A.length_carve_le i).trans (le_max_right _ _)
        · rw [if_neg other]
          exact (congrArg List.length (A.setList_of_ne _ other)).le
      · simp [regionsOf, regionsAfter, empty, room]
    · rcases answer with _ | base
      · exact absurd rfl ((kept.resolve_left (not_not_intro empty)).resolve_left room)
      · have served : (A.allocate c (some base)).1 = (A.setAside.grow c base).carve c := by
          rw [A.allocate_of_nil empty, obtain_of_grant room]
        refine ⟨A.filed, fun i => ?_, ?_⟩
        · rw [served]
          rcases eq_or_ne i c with rfl | other
          · rw [if_pos rfl]
            exact (length_carve_le _ i).trans (le_max_right _ _)
          · have aside := A.lists_setAside_eq aligned i
            have same : ((A.setAside.grow c base).carve c).lists i = A.setAside.lists i :=
              A.setAside.setList_of_ne _ other
            rw [if_neg other, same, aside, filed]
            split_ifs
            · exact le_refl _
            · exact le_refl _
        · have piece := A.sum_filed_le
          have fits := classSize_lt small
          simp only [regionsOf, if_pos empty, regionsAfter, if_neg room, Option.map_some,
            Option.toList_some, List.singleton_append, List.length_cons]
          simp only [maxBytes, align] at fits aligned
          omega
  · rcases List.exists_cons_of_ne_nil empty with ⟨p, rest, list⟩
    refine ⟨fun _ => 0, fun i => ?_, ?_⟩
    · rw [A.allocate_of_cons list]
      rcases eq_or_ne i c with rfl | other
      · rw [if_pos rfl, setList_self, list]
        exact le_max_left _ _
      · rw [if_neg other]
        exact (congrArg List.length (A.setList_of_ne _ other)).le
    · simp [regionsOf, empty]

/-- The remainder is at most twenty blocks and a sixteenth of the heap. -/
def Short (A : Arena) : Prop := A.rem.length ≤ A.heapSize / 16 + 2567

/-- Twenty of the forty blocks granted are carved off at once. -/
theorem short_carve_grow (A : Arena) (small : c < freeListSize) (base : Nat) :
    ((A.grow c base).carve c).Short := by
  have many : (A.grow c base).carved c = 20 := by
    apply Nat.min_eq_left
    rw [Nat.le_div_iff_mul_le (classSize_pos c)]
    change _ ≤ A.wanted c
    unfold wanted
    omega
  have fits := classSize_lt small
  change A.wanted c - (A.grow c base).carved c * classSize c ≤
    (A.heapSize + A.wanted c) / 16 + 2567
  simp only [many, maxBytes, wanted] at fits ⊢
  omega

/-- A carved remainder is shorter, and the heap stays. -/
theorem Short.carve (short : A.Short) (c : Nat) : (A.carve c).Short :=
  (Nat.sub_le _ _).trans short

theorem Short.allocate (short : A.Short) (small : c < freeListSize) (answer : Option Nat) :
    (A.allocate c answer).1.Short := by
  by_cases empty : A.lists c = []
  · rw [A.allocate_of_nil empty]
    by_cases room : classSize c ≤ A.rem.length
    · rw [obtain_of_room room]
      exact short.carve c
    · cases answer with
      | some base =>
        rw [obtain_of_grant room]
        exact A.setAside.short_carve_grow small base
      | none =>
        rw [obtain_of_refusal room]
        cases found : A.setAside.firstFree c with
        | some i =>
          rcases firstFree_eq_some found with ⟨_, inside, _⟩
          have reused : (A.setAside.reuse i).Short :=
            (classSize_lt inside).trans (Nat.le_add_left_of_le (by decide))
          exact reused.carve c
        | none =>
          have none : A.setAside.Short := A.length_rem_setAside.trans_le (Nat.zero_le _)
          exact none
  · rcases List.exists_cons_of_ne_nil empty with ⟨p, rest, list⟩
    rw [A.allocate_of_cons list]
    exact short

end Arena

namespace World

variable {w : World} {A : Arena} {e : Event} {p p' : Nat → Nat}

/-- A request that the pool does not serve adds no live block of it. -/
theorem liveIn_aside {T : ElemType} {n : Nat} (direct : ¬(n ≠ 0 ∧ n * T.size ≤ maxBytes))
    (answer : Option Nat) (c : Nat) : (w.step (.allocate T n answer)).1.liveIn c = w.liveIn c := by
  rcases w.step_allocate_cases T n answer with ⟨ptr, _, live⟩ | ⟨f, _, live⟩
  · by_cases zero : n = 0
    · rw [if_pos zero] at live
      rw [liveIn, live, ← liveIn]
    · have large : ¬Block.Pooled ⟨T, n, ptr⟩ := fun small => direct ⟨zero, small⟩
      have count := liveIn_cons (w.step (.allocate T n answer)).1.pool ⟨T, n, ptr⟩ w.live c
      rw [if_neg zero] at live
      simp only [← live, large, false_and, if_false, Nat.add_zero] at count
      exact count
  · rw [liveIn, live, ← liveIn]

/-- Giving a block back moves it, and changes nothing else in the books. -/
theorem Inv.circulating_deallocate {T : ElemType} {ptr n : Nat} (inv : w.Inv A)
    (valid : w.Valid (.deallocate T ptr n)) (c : Nat) :
    (w.step (.deallocate T ptr n)).1.liveIn c + ((A.serve (.deallocate T ptr n)).1.lists c).length =
        w.liveIn c + (A.lists c).length ∧
      (A.serve (.deallocate T ptr n)).1.rem = A.rem ∧
      (A.serve (.deallocate T ptr n)).1.heapSize = A.heapSize := by
  by_cases null : ptr = 0
  · subst null
    rcases inv.step_deallocate_null (T := T) (n := n) with ⟨same, serve⟩
    rw [same, serve]
    exact ⟨rfl, rfl, rfl⟩
  · have live : ⟨T, n, ptr⟩ ∈ w.live := valid.2.resolve_left null
    have positive : n ≠ 0 := inv.counted _ live
    by_cases large : maxBytes < n * T.size
    · have serve : A.serve (.deallocate T ptr n) = (A, .done) := if_pos (Or.inr (Or.inr large))
      have direct : ¬Block.Pooled ⟨T, n, ptr⟩ := Nat.not_le.mpr large
      have count := liveIn_erase live (w.pool.deallocate T ptr n) c
      simp only [direct, false_and, if_false, Nat.add_zero] at count
      rw [serve, count]
      exact ⟨rfl, rfl, rfl⟩
    · have serve : A.serve (.deallocate T ptr n) = (A.release (classOf (n * T.size)) ptr, .done) :=
        if_neg (by simp [positive, null, large])
      have count := liveIn_deallocate live (Nat.le_of_not_lt large) c
      rw [serve]
      refine ⟨?_, rfl, rfl⟩
      rcases eq_or_ne c (classOf (n * T.size)) with rfl | other
      · rw [Arena.release, Arena.setList_self, List.length_cons]
        rw [if_pos rfl] at count
        omega
      · rw [Arena.release, A.setList_of_ne _ other]
        rw [if_neg other] at count
        omega

/-- No class has more blocks in circulation than its peak, nineteen spare ones, and its
share of the pieces set aside, of at most 120 bytes for each region. -/
def Frugal (p : Nat → Nat) (w : World) (A : Arena) : Prop :=
  A.Short ∧ ∃ spare : Nat → Nat,
    (∀ c, w.liveIn c + (A.lists c).length ≤ p c + 19 + spare c) ∧
      ∑ c ∈ Finset.range freeListSize, classSize c * spare c ≤ 120 * w.pool.regions.length

theorem frugal_init (m : Machine) (p : Nat → Nat) : Frugal p (init m) Arena.init :=
  ⟨Nat.zero_le _, fun _ => 0, fun c => by simp [init, liveIn, Arena.init],
    by simp⟩

/-- A valid event that is not refused stays frugal, if the peaks keep up. -/
theorem Frugal.step (frugal : Frugal p w A) (inv : w.Inv A) (valid : w.Valid e)
    (unrefused : w.Unrefused e) (grow : ∀ c, p c ≤ p' c)
    (peak : ∀ c, (w.step e).1.liveIn c ≤ p' c) : Frugal p' (w.step e).1 (A.serve e).1 := by
  rcases frugal with ⟨short, spare, circulating, pieces⟩
  cases e with
  | allocate T n answer =>
    by_cases pooled : n ≠ 0 ∧ n * T.size ≤ maxBytes
    · rcases pooled with ⟨positive, small⟩
      have kept := inv.kept_of_unrefused positive small unrefused
      have inside := classOf_lt small
      rcases Arena.exists_spare w.pool.regions inside inv.ledger.aligned kept with
        ⟨filed, lists, filedPieces⟩
      rw [← inv.regions_allocate positive small, ← pool_step_allocate] at filedPieces
      rw [A.serve_small positive small]
      refine ⟨short.allocate inside answer, fun c => spare c + filed c, fun c => ?_, ?_⟩
      · have count := inv.served_of_unrefused positive small valid unrefused c
        have list := lists c
        have before := circulating c
        have more := grow c
        have top := peak c
        change _ + ((A.allocate (classOf (n * T.size)) answer).1.lists c).length ≤
          p' c + 19 + (spare c + filed c)
        rcases eq_or_ne c (classOf (n * T.size)) with rfl | other
        · rw [if_pos rfl] at count list
          omega
        · rw [if_neg other] at count list
          omega
      · simp only [Nat.mul_add, Finset.sum_add_distrib]
        omega
    · rcases step_allocate_aside w A answer pooled with
        ⟨arena, _, regions⟩
      rw [arena]
      refine ⟨short, spare, fun c => ?_, regions ▸ pieces⟩
      rw [liveIn_aside pooled]
      exact (circulating c).trans (by have := grow c; omega)
  | deallocate T ptr n =>
    refine ⟨?_, spare, fun c => ?_, ?_⟩
    · rcases inv.circulating_deallocate valid 0 with ⟨_, rem, heap⟩
      unfold Arena.Short
      rw [rem, heap]
      exact short
    · rw [(inv.circulating_deallocate valid c).1]
      exact (circulating c).trans (by have := grow c; omega)
    · rw [w.regions_deallocate]
      exact pieces
  | write a v =>
    exact ⟨short, spare, fun c => (circulating c).trans (by have := grow c; omega), pieces⟩

/-- In a run in which the system refuses nothing, the heap is bounded by the peaks of the
live blocks: up to a sixteenth, it is at most the peak of every class and nineteen blocks
more, 120 bytes for each region, and twenty blocks of the largest class. -/
theorem heapSize_of_run (m : Machine) {es : List Event}
    (run : Admissible World.step (fun w e => w.Valid e ∧ w.Unrefused e) (init m) es) :
    15 * (after World.step (init m) es).pool.heapSize ≤
      16 * (∑ c ∈ Finset.range freeListSize,
          classSize c * (TorchTest.peak World.step (liveIn c) (init m) es + 19) +
        120 * (after World.step (init m) es).pool.regions.length + 2567) := by
  have frugal : ∃ A, (after World.step (init m) es).Inv A ∧
      Frugal (fun c => TorchTest.peak World.step (liveIn c) (init m) es)
        (after World.step (init m) es) A := by
    induction es using List.reverseRecOn with
    | nil => exact ⟨_, inv_init m, frugal_init m _⟩
    | append_singleton es e ih =>
      have split := admissible_append.mp run
      rcases ih split.1 with ⟨A, inv, frugal⟩
      rcases split.2 with ⟨⟨valid, unrefused⟩, _⟩
      rw [after_append, after_cons, after_nil]
      refine ⟨_, (inv.step valid).1, frugal.step inv valid unrefused (fun c => ?_) fun c => ?_⟩
      · rw [peak_append]
        exact le_max_left _ _
      · rw [peak_append, peak_cons, peak_nil]
        exact (le_max_right _ _).trans (le_max_right _ _)
  rcases frugal with ⟨A, inv, short, spare, circulating, pieces⟩
  have heap := inv.heap_eq
  have whole : ∑ c ∈ Finset.range freeListSize, classSize c *
      ((after World.step (init m) es).liveIn c + (A.lists c).length) ≤
      ∑ c ∈ Finset.range freeListSize,
        classSize c * (TorchTest.peak World.step (liveIn c) (init m) es + 19) +
        ∑ c ∈ Finset.range freeListSize, classSize c * spare c := by
    rw [← Finset.sum_add_distrib]
    refine Finset.sum_le_sum fun c _ => ?_
    rw [← Nat.mul_add]
    exact Nat.mul_le_mul_left _ (circulating c)
  unfold Arena.Short at short
  rw [← inv.sim.heap] at short
  omega

/-- After the pairs and the buffer, the heap of 640 bytes is within the bound. -/
theorem heapSize_of_run_sample :
    (after World.step (init Machine.zero) pairsRun).pool.heapSize = 640 ∧
      15 * (after World.step (init Machine.zero) pairsRun).pool.heapSize ≤
        16 * (∑ c ∈ Finset.range freeListSize,
            classSize c * (TorchTest.peak World.step (liveIn c) (init Machine.zero) pairsRun + 19) +
          120 * (after World.step (init Machine.zero) pairsRun).pool.regions.length + 2567) :=
  ⟨by decide +kernel, heapSize_of_run Machine.zero (by decide +kernel)⟩

end World

end TorchTest.PoolAlloc
