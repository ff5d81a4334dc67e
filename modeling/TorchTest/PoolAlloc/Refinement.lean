import TorchTest.PoolAlloc.Refill
import TorchTest.PoolAlloc.World

/-!
# Runs of the pool are runs of the arena

`World.Inv w A` ties a world to an arena with balanced books: the pool is what
the arena looks like in memory, and the live blocks from the pool are those in
the books. A valid event keeps the invariant with `Arena.serve`, gives the same
answer (`Inv.step`), and leaves the live blocks alone (`Inv.step_frame`). The
runs follow (`run_refines`).
-/

namespace TorchTest.PoolAlloc

/-! ## Live blocks -/

namespace Block

variable {b : Block}

/-- A pooled block occupies a block of its class. -/
theorem span_of_pooled (pooled : b.Pooled) (positive : b.count ≠ 0) :
    b.span = ⟨b.ptr, classSize (classOf b.bytes)⟩ := by
  have some : 0 < b.bytes := Nat.mul_pos (Nat.pos_of_ne_zero positive) b.type.size_pos
  have length : (b.bytes + 7) / 8 * 8 = classSize (classOf b.bytes) := by
    simp only [classSize, classOf, align]
    omega
  rw [span, if_pos pooled, length]

end Block

namespace World

variable {w : World} {b : Block} {T : ElemType} {p n : Nat}

theorem pooled_cons (pool : Pool) (b : Block) (l : List Block) :
    pooled ⟨pool, b :: l⟩ = if b.Pooled then b.span :: pooled ⟨pool, l⟩ else pooled ⟨pool, l⟩ := by
  simp only [pooled, List.filter_cons, decide_eq_true_eq]
  split <;> rfl

theorem direct_cons (pool : Pool) (b : Block) (l : List Block) :
    direct ⟨pool, b :: l⟩ = if b.Pooled then direct ⟨pool, l⟩ else b.span :: direct ⟨pool, l⟩ := by
  simp only [direct, List.filter_cons, decide_not, Bool.not_eq_true', decide_eq_false_iff_not]
  split <;> simp_all

theorem mem_pooled (live : b ∈ w.live) (pooled : b.Pooled) : b.span ∈ w.pooled :=
  List.mem_map_of_mem (List.mem_filter.mpr ⟨live, decide_eq_true pooled⟩)

theorem mem_direct (live : b ∈ w.live) (large : ¬b.Pooled) : b.span ∈ w.direct :=
  List.mem_map_of_mem (List.mem_filter.mpr ⟨live, decide_eq_true large⟩)

/-- A live block in front of the others. -/
theorem pooled_perm (live : b ∈ w.live) :
    w.pooled.Perm (pooled ⟨w.pool, b :: w.live.erase b⟩) :=
  ((List.perm_cons_erase live).filter _).map _

theorem direct_sublist (b : Block) (pool : Pool) :
    (direct ⟨pool, w.live.erase b⟩).Sublist w.direct :=
  (List.erase_sublist.filter _).map _

end World

theorem Granted.sublist {L L' : List Interval} (granted : Granted L) (sub : L'.Sublist L) :
    Granted L' where
  apart := granted.apart.sublist sub
  bounds r member := granted.bounds r (sub.subset member)

/-! ## Separation -/

namespace World

variable {w : World} {A : Arena} {regions : List Interval} {b d : Block} {i p : Nat}

/-- A block from the system lies outside the regions of the pool. -/
theorem direct_separate (system : Granted (w.direct ++ regions)) (live : b ∈ w.live)
    (large : ¬b.Pooled) : ∀ r ∈ regions, b.span.Separate r := fun _ member =>
  ((List.pairwise_append.mp system.apart).2.2 _ (mem_direct live large) _ member).separate

/-- The remainder misses every live block. -/
theorem rem_separate_span (ledger : Ledger A w.pooled regions)
    (system : Granted (w.direct ++ regions)) (live : b ∈ w.live) : A.rem.Separate b.span := by
  by_cases pooled : b.Pooled
  · exact ledger.rem_separate_live (mem_pooled live pooled)
  · exact ledger.separate_of_outside (direct_separate system live pooled) (rem_within A _)

/-- A free block misses every live block. -/
theorem node_separate_span (ledger : Ledger A w.pooled regions)
    (system : Granted (w.direct ++ regions)) (small : i < freeListSize) (node : p ∈ A.lists i)
    (live : b ∈ w.live) : Interval.Separate ⟨p, classSize i⟩ b.span := by
  by_cases pooled : b.Pooled
  · exact ledger.node_separate_live small node (mem_pooled live pooled)
  · exact ledger.separate_of_outside (direct_separate system live pooled)
      (node_within _ small node)

/-- A live block of the pool in front of the others, in the books. -/
theorem ledger_front (ledger : Ledger A w.pooled regions) (live : b ∈ w.live) (pooled : b.Pooled) :
    Ledger A (b.span :: World.pooled ⟨w.pool, w.live.erase b⟩) regions := by
  have front := ledger.perm (pooled_perm live)
  rwa [pooled_cons, if_pos pooled] at front

/-- A live block of the pool misses every other live block. -/
theorem span_separate (ledger : Ledger A w.pooled regions)
    (system : Granted (w.direct ++ regions)) (live : b ∈ w.live) (pooled : b.Pooled)
    (other : d ∈ w.live) (different : d ≠ b) : b.span.Separate d.span := by
  by_cases small : d.Pooled
  · have once : ∀ x, cover [b.span] x + cover (World.pooled ⟨w.pool, w.live.erase b⟩) x ≤ 1 := by
      intro x
      have all := (ledger_front ledger live pooled).once x
      simp only [cover_cons, cover_nil] at all ⊢
      omega
    exact separate_of_cover once (List.mem_singleton_self _)
      (mem_pooled ((List.mem_erase_of_ne different).mpr other) small)
  · exact ledger.separate_of_outside (direct_separate system other small)
      (live_within A (mem_pooled live pooled))

end World

/-! ## Results of requests -/

namespace World

variable {w : World} {T : ElemType} {n ptr : Nat} {answer : Option Nat} {e : Failure} {pool : Pool}

theorem step_allocate_ok (result : w.pool.allocate T n false [answer] = (.ok ptr, pool)) :
    w.step (.allocate T n answer) =
      ({ pool, live := if n = 0 then w.live else ⟨T, n, ptr⟩ :: w.live }, .returned ptr) := by
  rw [step, result]

theorem step_allocate_error (result : w.pool.allocate T n false [answer] = (.error e, pool)) :
    w.step (.allocate T n answer) = ({ w with pool }, .failed e) := by
  rw [step, result]

theorem pool_step_allocate :
    (w.step (.allocate T n answer)).1.pool = (w.pool.allocate T n false [answer]).2 := by
  rw [step]
  split <;> simp_all

/-- A request returns a block, the newest live one, or it fails. -/
theorem step_allocate_cases (w : World) (T : ElemType) (n : Nat) (answer : Option Nat) :
    (∃ ptr, (w.step (.allocate T n answer)).2 = .returned ptr ∧
        (w.step (.allocate T n answer)).1.live =
          if n = 0 then w.live else ⟨T, n, ptr⟩ :: w.live) ∨
      ∃ e, (w.step (.allocate T n answer)).2 = .failed e ∧
        (w.step (.allocate T n answer)).1.live = w.live := by
  rcases result : w.pool.allocate T n false [answer] with ⟨e | ptr, pool⟩
  · rw [step_allocate_error result]
    exact Or.inr ⟨e, rfl, rfl⟩
  · rw [step_allocate_ok result]
    exact Or.inl ⟨ptr, rfl, rfl⟩

end World

/-! ## The invariant -/

/-- The pool is what the arena looks like, and the arena's books balance. -/
structure World.Inv (w : World) (A : Arena) : Prop where
  sim : Sim w.pool A
  ledger : Ledger A w.pooled w.pool.regions
  system : Granted (w.direct ++ w.pool.regions)
  counted : ∀ b ∈ w.live, b.count ≠ 0
  env : ∀ T, w.pool.forceNew T ≤ 0

namespace World

theorem inv_init (m : Machine) : (init m).Inv Arena.init where
  sim := ⟨fun _ _ => .nil, rfl, rfl, rfl⟩
  ledger := Ledger.init
  system := ⟨.nil, fun _ member => nomatch member⟩
  counted _ member := nomatch member
  env _ := le_refl 0

namespace Inv

variable {w : World} {A : Arena} {b d : Block} {T : ElemType} {p n c : Nat} {answer : Option Nat}

/-- The regions after a request of up to 128 bytes. -/
theorem regions_allocate (inv : w.Inv A) (positive : n ≠ 0) (small : n * T.size ≤ maxBytes)
    (answer : Option Nat) :
    (w.pool.allocate T n false [answer]).2.regions =
      A.regionsOf (classOf (n * T.size)) answer w.pool.regions := by
  have requests := inv.sim.requests_allocate inv.ledger inv.env positive small answer
  rw [Pool.regions, requests, Arena.regionsOf, Arena.requestsAfter, Arena.regionsAfter]
  split_ifs
  · rfl
  · cases answer <;> rfl
  · rfl

/-- What the system promised of such a request, in terms of the arena. -/
theorem granted_allocate (inv : w.Inv A) (positive : n ≠ 0) (small : n * T.size ≤ maxBytes)
    (ok : w.SystemOk (.allocate T n answer)) :
    Granted (w.direct ++ A.regionsOf (classOf (n * T.size)) answer w.pool.regions) := by
  have regions := inv.regions_allocate positive small answer
  unfold SystemOk at ok
  rcases result : w.pool.allocate T n false [answer] with ⟨_ | ptr, pool⟩
  · rw [result] at regions
    rw [step_allocate_error result] at ok
    rw [← regions]
    exact ok
  · rw [result] at regions
    rw [step_allocate_ok result, if_neg positive] at ok
    simp only [direct_cons, if_pos (show Block.Pooled ⟨T, n, ptr⟩ from small)] at ok
    rw [← regions]
    exact ok

/-- A request of up to 128 bytes. -/
theorem step_small (inv : w.Inv A) (positive : n ≠ 0) (small : n * T.size ≤ maxBytes)
    (ok : w.SystemOk (.allocate T n answer)) :
    (w.step (.allocate T n answer)).1.Inv (A.allocate (classOf (n * T.size)) answer).1 ∧
      (w.step (.allocate T n answer)).2 =
        .ofOption (A.allocate (classOf (n * T.size)) answer).2 ∧
      ∀ b ∈ w.live, Machine.AgreeOn b.span w.pool.machine
        (w.step (.allocate T n answer)).1.pool.machine := by
  have inside := classOf_lt small
  have granted := inv.granted_allocate positive small ok
  have granted' := granted.sublist (List.sublist_append_right w.direct _)
  have regions := inv.regions_allocate positive small answer
  have ledger' := inv.ledger.allocate inside granted'
  rcases inv.sim.allocate_eq inv.ledger inv.env positive small granted' with ⟨s', served', result⟩
  have env : ∀ U, s'.forceNew U ≤ 0 := fun U =>
    served'.forceNew ▸ Pool.forceNew_checked_le inv.env U
  have frame : ∀ b ∈ w.live, Machine.AgreeOn b.span w.pool.machine s'.machine := by
    intro b live
    rw [← Pool.machine_checked (s := w.pool) (T := T)]
    refine served'.frame _ fun empty => ⟨rem_separate_span inv.ledger inv.system live, ?_⟩
    rw [Arena.regionsOf, if_pos empty] at granted granted'
    exact rem_separate_span (inv.ledger.obtain inside granted') granted live
  have sim := served'.sim
  rw [result] at regions
  unfold Arena.taken at ledger'
  rcases case : (A.allocate (classOf (n * T.size)) answer).2 with _ | p
  · rw [case] at result ledger'
    rw [step_allocate_error result]
    exact ⟨⟨sim, regions ▸ ledger', regions ▸ granted, inv.counted, env⟩, rfl, frame⟩
  · rw [case] at result ledger'
    rw [step_allocate_ok result, if_neg positive]
    have pooled : Block.Pooled ⟨T, n, p⟩ := small
    have span := Block.span_of_pooled pooled positive
    refine ⟨⟨sim, ?_, ?_, ?_, env⟩, rfl, frame⟩
    · rw [pooled_cons, if_pos pooled, span]
      exact regions ▸ ledger'
    · rw [direct_cons, if_pos pooled]
      exact regions ▸ granted
    · exact List.forall_mem_cons.mpr ⟨positive, inv.counted⟩

/-- A request of more than 128 bytes. -/
theorem step_large (inv : w.Inv A) (positive : n ≠ 0) (fits : n * T.size < addressSpace)
    (large : maxBytes < n * T.size) (ok : w.SystemOk (.allocate T n answer)) :
    (w.step (.allocate T n answer)).1.Inv A ∧
      (w.step (.allocate T n answer)).2 = .ofOption answer ∧
      ∀ b ∈ w.live, Machine.AgreeOn b.span w.pool.machine
        (w.step (.allocate T n answer)).1.pool.machine := by
  have result := w.pool.allocate_of_large positive fits large answer
  have sim := inv.sim.checked T
  have env := Pool.forceNew_checked_le (T := T) inv.env
  have regions : (w.pool.checked T).regions = w.pool.regions :=
    congrArg (List.filterMap _) Pool.requests_checked
  have frame : ∀ b ∈ w.live, Machine.AgreeOn b.span w.pool.machine (w.pool.checked T).machine :=
    fun b _ => by
      rw [Pool.machine_checked]
      exact Machine.AgreeOn.refl _ _
  unfold SystemOk at ok
  cases answer with
  | none =>
    rw [step_allocate_error result]
    exact ⟨⟨sim, regions.symm ▸ inv.ledger, regions.symm ▸ inv.system, inv.counted, env⟩, rfl,
      frame⟩
  | some p =>
    rw [step_allocate_ok result, if_neg positive] at ok ⊢
    have direct : ¬Block.Pooled ⟨T, n, p⟩ := Nat.not_le.mpr large
    refine ⟨⟨sim, ?_, ok, List.forall_mem_cons.mpr ⟨positive, inv.counted⟩, env⟩, rfl, frame⟩
    rw [pooled_cons, if_neg direct]
    exact regions.symm ▸ inv.ledger

/-- An allocation. -/
theorem step_allocate (inv : w.Inv A) (ok : w.SystemOk (.allocate T n answer)) :
    (w.step (.allocate T n answer)).1.Inv (A.serve (.allocate T n answer)).1 ∧
      (w.step (.allocate T n answer)).2 = (A.serve (.allocate T n answer)).2 ∧
      ∀ b ∈ w.live, Machine.AgreeOn b.span w.pool.machine
        (w.step (.allocate T n answer)).1.pool.machine := by
  unfold Arena.serve
  by_cases zero : n = 0
  · have result : w.pool.allocate T n false [answer] = (.ok 0, w.pool) := if_pos zero
    simp only [if_pos zero, step_allocate_ok result]
    exact ⟨inv, True.intro, fun b _ => Machine.AgreeOn.refl _ _⟩
  by_cases wrap : addressSpace ≤ n * T.size
  · have result : w.pool.allocate T n false [answer] = (.error .badAlloc, w.pool) := by
      rw [Pool.allocate, if_neg zero, if_pos (Pool.maxSize_lt_iff.mpr wrap)]
    simp only [if_neg zero, if_pos wrap, step_allocate_error result]
    exact ⟨inv, True.intro, fun b _ => Machine.AgreeOn.refl _ _⟩
  by_cases large : maxBytes < n * T.size
  · simp only [if_neg zero, if_neg wrap, if_pos large]
    exact inv.step_large zero (Nat.lt_of_not_le wrap) large ok
  · simp only [if_neg zero, if_neg wrap, if_neg large]
    exact inv.step_small zero (Nat.le_of_not_lt large) ok

/-- A live block is neither null nor past the address space. -/
theorem live_bounds (inv : w.Inv A) (live : b ∈ w.live) :
    0 < b.ptr ∧ b.ptr + b.bytes < addressSpace := by
  by_cases pooled : b.Pooled
  · have span := Block.span_of_pooled pooled (inv.counted b live)
    have bounds := inv.ledger.live_bounds (mem_pooled live pooled) (by
      rw [span]
      exact classSize_pos _)
    have fits : b.bytes ≤ classSize (classOf b.bytes) := le_classSize
    simp only [span, Interval.stop] at bounds
    omega
  · have bounds := inv.system.bounds _ (List.mem_append_left _ (mem_direct live pooled))
    simp only [Block.span, if_neg pooled, Interval.stop] at bounds
    exact ⟨bounds.1, bounds.2.2⟩

/-- A null pointer given back. -/
theorem step_deallocate_null (inv : w.Inv A) :
    (w.step (.deallocate T 0 n)).1 = w ∧ A.serve (.deallocate T 0 n) = (A, .done) := by
  have absent : ⟨T, n, 0⟩ ∉ w.live := fun live => (inv.live_bounds live).1.false
  have same : w.pool.deallocate T 0 n = w.pool := if_neg (by simp)
  constructor
  · rw [step, same, List.erase_of_not_mem absent]
  · simp [Arena.serve]

/-- A block of more than 128 bytes given back. -/
theorem step_deallocate_large (inv : w.Inv A) (live : ⟨T, n, p⟩ ∈ w.live)
    (large : maxBytes < n * T.size) :
    (w.step (.deallocate T p n)).1.Inv A ∧
      (w.step (.deallocate T p n)).1.pool.machine = w.pool.machine := by
  have positive : n ≠ 0 := inv.counted _ live
  rcases inv.live_bounds live with ⟨nonzero, bound⟩
  have fits : n * T.size < addressSpace := (Nat.le_add_left _ p).trans_lt bound
  have same : w.pool.deallocate T p n = w.pool := by
    rw [Pool.deallocate, if_pos ⟨positive, nonzero.ne'⟩]
    simp only [SizeT.mul_eq fits]
    exact if_pos (Or.inl large)
  have direct : ¬Block.Pooled ⟨T, n, p⟩ := Nat.not_le.mpr large
  have books := inv.ledger.perm (pooled_perm live)
  rw [pooled_cons, if_neg direct] at books
  rw [step, same]
  exact ⟨⟨inv.sim, books, inv.system.sublist ((direct_sublist _ _).append_right _),
    fun b member => inv.counted b (List.mem_of_mem_erase member), inv.env⟩, rfl⟩

/-- A block of up to 128 bytes given back. -/
theorem step_deallocate_small (inv : w.Inv A) (live : ⟨T, n, p⟩ ∈ w.live)
    (small : n * T.size ≤ maxBytes) :
    (w.step (.deallocate T p n)).1.Inv (A.release (classOf (n * T.size)) p) ∧
      WroteIn ⟨p, pointerSize⟩ w.pool.machine (w.step (.deallocate T p n)).1.pool.machine := by
  have positive : n ≠ 0 := inv.counted _ live
  have nonzero := (inv.live_bounds live).1
  have inside := classOf_lt small
  have some : 0 < n * T.size := Nat.mul_pos (Nat.pos_of_ne_zero positive) T.size_pos
  have fits : n * T.size < addressSpace := small.trans_lt (by decide)
  have pushed : w.pool.deallocate T p n = w.pool.push (classOf (n * T.size)) p := by
    rw [Pool.deallocate, if_pos ⟨positive, nonzero.ne'⟩]
    simp only [SizeT.mul_eq fits]
    rw [if_neg (by simp [small, inv.env T]), getFreeList_eq some small]
  have pooled : Block.Pooled ⟨T, n, p⟩ := small
  have books := ledger_front inv.ledger live pooled
  have span := Block.span_of_pooled pooled positive
  have within : Interval.Within ⟨p, pointerSize⟩ (Block.span ⟨T, n, p⟩) := by
    rw [span]
    exact link_within ..
  have chains := Pool.chains_push inv.sim.chains inv.ledger inside nonzero fun i small q node =>
    (inv.ledger.node_separate_live small node (mem_pooled live pooled)).symm.mono within
      (.refl _)
  rw [span] at books
  rw [step, pushed]
  exact ⟨⟨⟨chains, inv.sim.start, inv.sim.stop, inv.sim.heap⟩, books.release inside,
    inv.system.sublist ((direct_sublist _ _).append_right _),
    fun b member => inv.counted b (List.mem_of_mem_erase member), inv.env⟩,
    wroteIn_storePtr _ _ _⟩

/-- A deallocation. -/
theorem step_deallocate (inv : w.Inv A) (ok : w.ClientOk (.deallocate T p n)) :
    (w.step (.deallocate T p n)).1.Inv (A.serve (.deallocate T p n)).1 ∧
      ∀ b ∈ w.live, b ≠ ⟨T, n, p⟩ → Machine.AgreeOn b.span w.pool.machine
        (w.step (.deallocate T p n)).1.pool.machine := by
  by_cases null : p = 0
  · subst null
    rcases inv.step_deallocate_null (T := T) (n := n) with ⟨same, serve⟩
    rw [same, serve]
    exact ⟨inv, fun b _ _ => Machine.AgreeOn.refl _ _⟩
  have live : ⟨T, n, p⟩ ∈ w.live := ok.resolve_left null
  have positive : n ≠ 0 := inv.counted _ live
  by_cases large : maxBytes < n * T.size
  · rcases inv.step_deallocate_large live large with ⟨inv', same⟩
    have serve : A.serve (.deallocate T p n) = (A, .done) := if_pos (Or.inr (Or.inr large))
    rw [serve, same]
    exact ⟨inv', fun b _ _ => Machine.AgreeOn.refl _ _⟩
  · rcases inv.step_deallocate_small live (Nat.le_of_not_lt large) with ⟨inv', wrote⟩
    have serve : A.serve (.deallocate T p n) = (A.release (classOf (n * T.size)) p, .done) :=
      if_neg (by simp [positive, null, large])
    rw [serve]
    refine ⟨inv', fun b other different => wrote.agreeOn ?_⟩
    have pooled : Block.Pooled ⟨T, n, p⟩ := Nat.le_of_not_lt large
    refine (span_separate inv.ledger inv.system live pooled other different).mono ?_ (.refl _)
    rw [Block.span_of_pooled pooled positive]
    exact link_within ..

/-- A client's write. -/
theorem step_write (inv : w.Inv A) {a : Nat} {v : UInt8} (ok : w.ClientOk (.write a v)) :
    (w.step (.write a v)).1.Inv A := by
  rcases ok with ⟨b, live, inside⟩
  refine ⟨⟨inv.sim.chains.congr fun i small p node => ?_, inv.sim.start, inv.sim.stop,
    inv.sim.heap⟩, inv.ledger, inv.system, inv.counted, inv.env⟩
  exact Machine.agreeOn_writeByte _ v fun hit =>
    node_separate_span inv.ledger inv.system small node live a hit inside

/-- A valid event does to the world what it does to the arena, and gives the
same answer. -/
theorem step (inv : w.Inv A) {e : Event} (valid : w.Valid e) :
    (w.step e).1.Inv (A.serve e).1 ∧ (w.step e).2 = (A.serve e).2 := by
  cases e with
  | allocate T n answer =>
    rcases inv.step_allocate valid.1 with ⟨inv', result, _⟩
    exact ⟨inv', result⟩
  | deallocate T p n =>
    refine ⟨(inv.step_deallocate valid.2).1, ?_⟩
    simp only [Arena.serve]
    split_ifs <;> rfl
  | write a v => exact ⟨inv.step_write valid.2, rfl⟩

/-- A valid call changes no byte of a live block but the one being deallocated. -/
theorem step_frame (inv : w.Inv A) {e : Event} (valid : w.Valid e) (call : e.IsCall)
    (live : b ∈ w.live) (kept : e ≠ .deallocate b.type b.ptr b.count) :
    Machine.AgreeOn b.span w.pool.machine (w.step e).1.pool.machine := by
  cases e with
  | allocate T n answer => exact (inv.step_allocate valid.1).2.2 b live
  | deallocate T p n =>
    apply (inv.step_deallocate valid.2).2 b live
    rintro rfl
    exact kept rfl
  | write a v => exact call.elim

end Inv

/-! ## Runs -/

/-- Over a valid run the world stays what the arena looks like, and the answers
are the arena's. -/
theorem run_refines {w : World} {A : Arena} {es : List Event}
    (run : Admissible step Valid w es) (inv : w.Inv A) :
    (after step w es).Inv (after Arena.serve A es) ∧
      outputs step w es = outputs Arena.serve A es :=
  run.lockstep inv fun _ _ _ inv valid => inv.step valid

/-- A reachable world is what some arena looks like. -/
theorem Reachable.inv {w : World} (reachable : w.Reachable) : ∃ A, w.Inv A := by
  rcases reachable with ⟨m, es, run, rfl⟩
  exact ⟨_, (run_refines run (inv_init m)).1⟩

end World

end TorchTest.PoolAlloc
