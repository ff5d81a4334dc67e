import TorchTest.PoolAlloc.Exhaustion

/-!
# Memory is reused before more is asked for

The blocks of a class that are live or free circulate: as long as the system grants
every request, no call makes them fewer (`Inv.circulating_step`), since a left-over
piece only adds to a class and a refill only replaces an empty list. So there are
always as many as were ever live at once, and a request made while fewer are live
finds a free one (`reused_of_run`): it asks for nothing and touches nothing but its
own list.
-/

namespace TorchTest.PoolAlloc

/-! ## Lists of the arena -/

namespace Arena

variable {A : Arena} {c i : Nat} {answer : Option Nat}

/-- Setting the remainder aside takes no free block away. -/
theorem length_le_setAside (A : Arena) (aligned : align ∣ A.rem.length) (i : Nat) :
    (A.lists i).length ≤ (A.setAside.lists i).length := by
  rw [A.lists_setAside_eq aligned]
  split_ifs
  · exact Nat.le_succ _
  · exact le_refl _

/-- A request that the system does not refuse takes one block of its class and no
block of another. -/
theorem length_le_allocate (aligned : align ∣ A.rem.length)
    (kept : A.lists c ≠ [] ∨ classSize c ≤ A.rem.length ∨ answer ≠ none) (i : Nat) :
    (A.lists i).length ≤
      ((A.allocate c answer).1.lists i).length + if i = c then 1 else 0 := by
  by_cases empty : A.lists c = []
  · have obtained : ∃ A', A.obtain c answer = (A', true) ∧
        (A.lists i).length ≤ (A'.lists i).length := by
      unfold Arena.obtain
      by_cases room : classSize c ≤ A.rem.length
      · exact ⟨A, if_pos room, le_refl _⟩
      · rcases answer with _ | base
        · exact absurd rfl ((kept.resolve_left (not_not_intro empty)).resolve_left room)
        · exact ⟨_, if_neg room, A.length_le_setAside aligned i⟩
    rcases obtained with ⟨A', obtained, more⟩
    rw [A.allocate_of_nil empty, obtained]
    rcases eq_or_ne i c with rfl | other
    · rw [empty]
      exact Nat.zero_le _
    · rw [if_neg other]
      exact more.trans_eq (congrArg List.length (A'.setList_of_ne _ other).symm)
  · rcases List.exists_cons_of_ne_nil empty with ⟨p, rest, list⟩
    rw [A.allocate_of_cons list]
    rcases eq_or_ne i c with rfl | other
    · rw [list, setList_self, if_pos rfl]
      exact le_refl _
    · rw [A.setList_of_ne _ other, if_neg other]
      exact le_refl _

/-- Only a request that finds its list empty changes the bytes obtained so far. -/
theorem heapSize_serve {e : Event}
    (free : ∀ T n answer, e = .allocate T n answer → n ≠ 0 → n * T.size ≤ maxBytes →
      A.lists (classOf (n * T.size)) ≠ []) :
    (A.serve e).1.heapSize = A.heapSize := by
  cases e with
  | allocate T n answer =>
    simp only [Arena.serve]
    split_ifs with zero wrap large
    · rfl
    · rfl
    · rfl
    · rcases List.exists_cons_of_ne_nil (free T n answer rfl zero (Nat.le_of_not_lt large)) with
        ⟨p, rest, list⟩
      rw [A.allocate_of_cons list]
      rfl
  | deallocate T p n =>
    simp only [Arena.serve]
    split_ifs <;> rfl
  | write a v => rfl

end Arena

/-! ## Blocks in circulation -/

/-- A request that finds a free block takes it. -/
theorem Pool.allocate_of_free {s : Pool} {T : ElemType} {n : Nat} (env : ∀ U, s.forceNew U ≤ 0)
    (positive : n ≠ 0) (small : n * T.size ≤ maxBytes)
    (free : s.freeList (classOf (n * T.size)) ≠ 0) (answers : List (Option Nat)) :
    s.allocate T n false answers =
      (.ok (s.freeList (classOf (n * T.size))),
        (s.checked T).pop (classOf (n * T.size)) (s.freeList (classOf (n * T.size)))) := by
  have same : (s.checked T).freeList = s.freeList := by
    unfold checked
    split_ifs <;> rfl
  rw [allocate_of_small env positive small, same, if_neg free]
  simp only
  rw [if_neg free]

namespace World

/-- From `w` to `w'` the block `p` of class `c` was taken off its list, and no other list,
no byte of memory, no end of the remainder and no request has changed. -/
structure Recycled (c p : Nat) (w w' : World) : Prop where
  head : p ≠ 0 ∧ w.pool.freeList c = p
  rest : w'.pool.freeList c = w.pool.machine.loadPtr p
  machine : w'.pool.machine = w.pool.machine
  lists : ∀ i, i ≠ c → w'.pool.freeList i = w.pool.freeList i
  remainder : w'.pool.startFree = w.pool.startFree ∧ w'.pool.endFree = w.pool.endFree
  requests : w'.pool.requests = w.pool.requests
  heapSize : w'.pool.heapSize = w.pool.heapSize

/-- How many blocks of class `c` are live. -/
def liveIn (c : Nat) (w : World) : Nat :=
  w.live.countP fun b => b.Pooled ∧ classOf b.bytes = c

/-- The system has granted every request of the pool so far. -/
def Unrefused (w : World) (e : Event) : Prop :=
  ∀ r ∈ (w.step e).1.pool.requests, r.2 ≠ none

instance (w : World) (e : Event) : Decidable (w.Unrefused e) :=
  inferInstanceAs (Decidable (∀ r ∈ _, _))

theorem liveIn_cons (pool : Pool) (b : Block) (l : List Block) (c : Nat) :
    liveIn c ⟨pool, b :: l⟩ =
      liveIn c ⟨pool, l⟩ + if b.Pooled ∧ classOf b.bytes = c then 1 else 0 := by
  simp only [liveIn, List.countP_cons, decide_eq_true_eq]

theorem liveIn_erase {w : World} {b : Block} (live : b ∈ w.live) (pool : Pool) (c : Nat) :
    liveIn c w =
      liveIn c ⟨pool, w.live.erase b⟩ + if b.Pooled ∧ classOf b.bytes = c then 1 else 0 := by
  rw [← liveIn_cons]
  exact (List.perm_cons_erase live).countP_eq _

namespace Inv

variable {w : World} {A : Arena} {T : ElemType} {n c : Nat} {answer : Option Nat} {e : Event}

/-- A request that was not refused had a free block, room in the remainder, or an
answer. -/
theorem kept_of_unrefused (inv : w.Inv A) (positive : n ≠ 0) (small : n * T.size ≤ maxBytes)
    (unrefused : w.Unrefused (.allocate T n answer)) :
    A.lists (classOf (n * T.size)) ≠ [] ∨ classSize (classOf (n * T.size)) ≤ A.rem.length ∨
      answer ≠ none := by
  by_contra refused
  simp only [not_or, not_not] at refused
  rcases refused with ⟨empty, short, rfl⟩
  have requests := inv.sim.requests_allocate inv.ledger inv.env positive small none
  rw [if_pos empty, Arena.requestsAfter, if_neg short] at requests
  unfold Unrefused at unrefused
  rw [pool_step_allocate, requests] at unrefused
  exact unrefused _ List.mem_cons_self rfl

/-- A request that is not refused adds a live block of its class. -/
theorem served_of_unrefused (inv : w.Inv A) (positive : n ≠ 0) (small : n * T.size ≤ maxBytes)
    (valid : w.Valid (.allocate T n answer)) (unrefused : w.Unrefused (.allocate T n answer))
    (c : Nat) :
    (w.step (.allocate T n answer)).1.liveIn c =
      w.liveIn c + if c = classOf (n * T.size) then 1 else 0 := by
  have kept := inv.kept_of_unrefused positive small unrefused
  have result := (inv.step_small positive small valid.1).2.1
  rcases w.step_allocate_cases T n answer with ⟨p, _, live⟩ | ⟨f, failed, _⟩
  · have pooled : Block.Pooled ⟨T, n, p⟩ := small
    have count := liveIn_cons (w.step (.allocate T n answer)).1.pool ⟨T, n, p⟩ w.live c
    rw [if_neg positive] at live
    rw [← live] at count
    simp only [pooled, true_and, Block.bytes, eq_comm (b := c)] at count
    exact count
  · rw [failed] at result
    cases some : (A.allocate (classOf (n * T.size)) answer).2 with
    | some p =>
      rw [some] at result
      cases result
    | none =>
      rcases (Arena.allocate_eq_none inv.ledger.aligned).mp some with ⟨empty, short, refused, _⟩
      rcases kept with list | room | answered
      · exact absurd empty list
      · exact absurd room (Nat.not_le.mpr short)
      · exact absurd refused answered

/-- A block of the pool given back moves from the live to the free ones. -/
theorem liveIn_deallocate {p : Nat} (live : ⟨T, n, p⟩ ∈ w.live) (small : n * T.size ≤ maxBytes)
    (c : Nat) :
    w.liveIn c =
      (w.step (.deallocate T p n)).1.liveIn c + if c = classOf (n * T.size) then 1 else 0 := by
  have pooled : Block.Pooled ⟨T, n, p⟩ := small
  have count := liveIn_erase live (w.pool.deallocate T p n) c
  simp only [pooled, true_and, Block.bytes, eq_comm (b := c)] at count
  exact count

/-- No valid event takes a block out of circulation, as long as nothing is refused. -/
theorem circulating_step (inv : w.Inv A) (valid : w.Valid e) (unrefused : w.Unrefused e) (c : Nat) :
    w.liveIn c + (A.lists c).length ≤
      (w.step e).1.liveIn c + ((A.serve e).1.lists c).length := by
  cases e with
  | allocate T n answer =>
    by_cases pooled : n ≠ 0 ∧ n * T.size ≤ maxBytes
    · rcases pooled with ⟨positive, small⟩
      have kept := inv.kept_of_unrefused positive small unrefused
      have count := inv.served_of_unrefused positive small valid unrefused c
      have lists := Arena.length_le_allocate inv.ledger.aligned kept c
      rw [A.serve_small positive small]
      simp only [count]
      omega
    · -- the arena is not asked
      have same : (A.serve (.allocate T n answer)).1 = A := by
        simp only [Arena.serve]
        split_ifs with zero wrap large
        · rfl
        · rfl
        · rfl
        · exact absurd ⟨zero, Nat.le_of_not_lt large⟩ pooled
      rw [same]
      refine Nat.add_le_add_right ?_ _
      unfold liveIn
      rcases w.step_allocate_cases T n answer with ⟨p, _, live⟩ | ⟨f, _, live⟩
      · rw [live]
        split_ifs
        · exact le_refl _
        · exact (List.sublist_cons_self _ _).countP_le
      · rw [live]
  | deallocate T p n =>
    by_cases null : p = 0
    · subst null
      rcases inv.step_deallocate_null (T := T) (n := n) with ⟨same, serve⟩
      rw [same, serve]
    · have live : ⟨T, n, p⟩ ∈ w.live := valid.2.resolve_left null
      have positive : n ≠ 0 := inv.counted _ live
      by_cases large : maxBytes < n * T.size
      · have serve : A.serve (.deallocate T p n) = (A, .done) := if_pos (Or.inr (Or.inr large))
        have direct : ¬Block.Pooled ⟨T, n, p⟩ := Nat.not_le.mpr large
        have count := liveIn_erase live (w.pool.deallocate T p n) c
        simp only [direct, false_and, if_false, Nat.add_zero] at count
        rw [serve, count]
        exact le_refl _
      · have serve : A.serve (.deallocate T p n) = (A.release (classOf (n * T.size)) p, .done) :=
          if_neg (by simp [positive, null, large])
        have count := liveIn_deallocate live (Nat.le_of_not_lt large) c
        rw [serve]
        rcases eq_or_ne c (classOf (n * T.size)) with rfl | other
        · rw [Arena.release, Arena.setList_self, List.length_cons]
          rw [if_pos rfl] at count
          omega
        · rw [Arena.release, A.setList_of_ne _ other]
          rw [if_neg other] at count
          omega
  | write a v => exact le_refl _

/-- There are always as many blocks of a class as were ever live at once. -/
theorem exists_peak_le (m : Machine) {es : List Event}
    (run : Admissible World.step (fun w e => w.Valid e ∧ w.Unrefused e) (init m) es) (c : Nat) :
    ∃ A, (after World.step (init m) es).Inv A ∧
      peak World.step (liveIn c) (init m) es ≤
        (after World.step (init m) es).liveIn c + (A.lists c).length := by
  refine run.peak_invariant (I := fun w p => ∃ A, w.Inv A ∧ p ≤ w.liveIn c + (A.lists c).length)
    ⟨Arena.init, inv_init m, Nat.le_add_right _ _⟩ fun w e p holds ok => ?_
  rcases holds with ⟨A, inv, bound⟩
  exact ⟨_, (inv.step ok.1).1,
    max_le (bound.trans (inv.circulating_step ok.1 ok.2 c)) (Nat.le_add_right _ _)⟩

/-- A request of a class with a free block recycles it. -/
theorem recycled (inv : w.Inv A) (positive : n ≠ 0) (small : n * T.size ≤ maxBytes)
    (free : A.lists (classOf (n * T.size)) ≠ []) (answer : Option Nat) :
    ∃ p, (w.step (.allocate T n answer)).2 = .returned p ∧
      w.Recycled (classOf (n * T.size)) p (w.step (.allocate T n answer)).1 := by
  have head := mt (inv.sim.chains.eq_zero_iff (classOf_lt small)).mp free
  rw [step_allocate_ok (Pool.allocate_of_free inv.env positive small head [answer])]
  refine ⟨_, rfl, ?_⟩
  have checked : ∃ forceNew, w.pool.checked T = { w.pool with forceNew := forceNew } := by
    unfold Pool.checked
    split_ifs
    · exact ⟨_, rfl⟩
    · exact ⟨w.pool.forceNew, rfl⟩
  rcases checked with ⟨forceNew, checked⟩
  rw [checked]
  exact
    { head := ⟨head, rfl⟩, rest := Function.update_self .., machine := rfl,
      lists := fun i other => Function.update_of_ne other .., remainder := ⟨rfl, rfl⟩,
      requests := rfl, heapSize := rfl }

end Inv

/-- In a run in which the system refuses nothing, a request of a class with fewer live
blocks than there were at some earlier point is served with a free block of the class,
and nothing else changes. So while no class exceeds its earlier peak, `_S_heap_size`
stays. -/
theorem reused_of_run (m : Machine) {es : List Event}
    (run : Admissible step (fun w e => w.Valid e ∧ w.Unrefused e) (init m) es) :
    (∀ T n answer, n ≠ 0 → n * T.size ≤ maxBytes →
        (after step (init m) es).liveIn (classOf (n * T.size)) <
          peak step (liveIn (classOf (n * T.size))) (init m) es →
        ∃ p, ((after step (init m) es).step (.allocate T n answer)).2 = .returned p ∧
          (after step (init m) es).Recycled (classOf (n * T.size)) p
            ((after step (init m) es).step (.allocate T n answer)).1) ∧
      ∀ es₁ es₂, es = es₁ ++ es₂ →
        (∀ c < freeListSize, peak step (liveIn c) (init m) es ≤ peak step (liveIn c) (init m) es₁) →
        (after step (init m) es).pool.heapSize = (after step (init m) es₁).pool.heapSize := by
  constructor
  · intro T n answer positive small fewer
    rcases Inv.exists_peak_le m run (classOf (n * T.size)) with ⟨A, inv, bound⟩
    refine inv.recycled positive small (fun empty => ?_) answer
    rw [empty, List.length_nil, Nat.add_zero] at bound
    exact absurd fewer (Nat.not_lt.mpr bound)
  · rintro es₁ es₂ rfl stays
    induction es₂ using List.reverseRecOn with
    | nil => rw [List.append_nil]
    | append_singleton es₂ e ih =>
      rw [← List.append_assoc] at run stays ⊢
      have split := admissible_append.mp run
      have before : ∀ c < freeListSize, peak step (liveIn c) (init m) (es₁ ++ es₂) ≤
          peak step (liveIn c) (init m) es₁ := fun c inside =>
        (peak_append (f := liveIn c) ▸ le_max_left _ _).trans (stays c inside)
      rw [← ih split.1 before, after_append, after_cons, after_nil]
      -- a request that found its list empty would make a new peak
      rcases split.2 with ⟨⟨valid, unrefused⟩, _⟩
      rcases Inv.exists_peak_le m split.1 0 with ⟨A, inv, _⟩
      rw [(inv.step valid).1.sim.heap, inv.sim.heap]
      apply Arena.heapSize_serve
      rintro T n answer rfl positive small empty
      have inside := classOf_lt small
      have count := inv.served_of_unrefused positive small valid unrefused (classOf (n * T.size))
      rcases Inv.exists_peak_le m split.1 (classOf (n * T.size)) with ⟨A', inv', bound⟩
      have same : A'.lists (classOf (n * T.size)) = [] := by
        rwa [← inv'.sim.chains.eq_zero_iff inside, inv.sim.chains.eq_zero_iff inside]
      have reached := stays _ inside
      rw [if_pos rfl] at count
      rw [same, List.length_nil, peak_append] at bound
      rw [peak_append, peak_cons, peak_nil, count] at reached
      omega

/-- Two pairs and a buffer, the pairs given back and taken again. -/
def pairsRun : List Event :=
  [.allocate .pair 1 (some 4096), .allocate .pair 1 none, .allocate .buffer 1 none,
    .deallocate .pair 4096 1, .deallocate .pair 4112 1, .allocate .pair 1 none, .write 4112 7,
    .allocate .pair 1 none]

/-- The pairs that were given back serve the next requests, so `_S_heap_size` stays. -/
theorem reused_of_run_sample :
    let w := after step (init Machine.zero) (pairsRun.take 5)
    w.Recycled 1 4112 (w.step (.allocate .pair 1 none)).1 ∧
      (after step (init Machine.zero) pairsRun).pool.heapSize = w.pool.heapSize := by
  intro w
  have fewer : (after step (init Machine.zero) (pairsRun.take 5)).liveIn 1 <
      peak step (liveIn 1) (init Machine.zero) (pairsRun.take 5) := by decide +kernel
  obtain ⟨p, _, recycled⟩ := (reused_of_run Machine.zero (by decide +kernel)).1 .pair 1 none
    (by decide) (by decide) fewer
  obtain rfl : 4112 = p := by
    rw [← recycled.head.2]
    decide +kernel
  exact ⟨recycled, (reused_of_run Machine.zero (by decide +kernel)).2 (pairsRun.take 5)
    (pairsRun.drop 5) rfl (by decide +kernel)⟩

end World

end TorchTest.PoolAlloc
