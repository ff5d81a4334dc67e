import TorchTest.PoolAlloc.Accounting
import TorchTest.PoolAlloc.Growth

/-!
# Memory is only ever cut

A piece of the pool is a live block, a free block or the remainder. The pool never
joins two pieces: a piece of a later state lies in a piece of an earlier one, or in a
region granted since (`pieces_of_run`). So memory freed in small blocks never serves a
larger request.

Where the system refuses nothing, a block is never cut again once it is a block, and
any two blocks of the pool, however far apart in time, have the same span or none of
their bytes in common (`slots_of_run`): a stale pointer aliases blocks of its own
class only, and only from their start.
-/

namespace TorchTest.PoolAlloc

/-- A live block, a free block, or a remainder that is not empty. -/
def Arena.Piece (A : Arena) (live : List Interval) (I : Interval) : Prop :=
  I ∈ live ∨ (∃ c < freeListSize, ∃ p ∈ A.lists c, I = ⟨p, classSize c⟩) ∨
    (I = A.rem ∧ 0 < A.rem.length)

namespace Arena

variable {A : Arena} {live : List Interval} {I : Interval} {c i p : Nat} {l rest : List Nat}

/-- What is in a list that replaced another one. -/
theorem node_setList {P : Interval → Prop} (head : ∀ p ∈ l, P ⟨p, classSize c⟩)
    (others : ∀ i < freeListSize, ∀ p ∈ A.lists i, P ⟨p, classSize i⟩) :
    ∀ i < freeListSize, ∀ p ∈ (A.setList c l).lists i, P ⟨p, classSize i⟩ := by
  intro i inside p node
  rcases eq_or_ne i c with rfl | other
  · rw [setList_self] at node
    exact head p node
  · rw [A.setList_of_ne _ other] at node
    exact others i inside p node

/-- A carved block lies in the remainder that it was carved off. -/
theorem within_carve (A : Arena) {j : Nat} (few : j < A.carved c) :
    Interval.Within ⟨A.rem.start + j * classSize c, classSize c⟩ A.rem := by
  have fits := A.carved_mul_le c
  have upper : (j + 1) * classSize c ≤ A.carved c * classSize c := Nat.mul_le_mul_right _ few
  rw [Nat.succ_mul] at upper
  constructor
  · exact Nat.le_add_right _ _
  · simp only [Interval.stop]
    omega

/-- What is left of the remainder lies in it. -/
theorem rem_carve_within (A : Arena) (c : Nat) : (A.carve c).rem.Within A.rem := by
  have fits := A.carved_mul_le c
  constructor
  · exact Nat.le_add_right _ _
  · change A.rem.start + A.carved c * classSize c + (A.rem.length - A.carved c * classSize c) ≤
      A.rem.start + A.rem.length
    omega

end Arena

/-- `Q` holds of the live and free blocks, and `R` of a remainder that is not empty. -/
structure Everywhere (Q R : Interval → Prop) (A : Arena) (live : List Interval) : Prop where
  live : ∀ I ∈ live, Q I
  nodes : ∀ c < freeListSize, ∀ p ∈ A.lists c, Q ⟨p, classSize c⟩
  rem : 0 < A.rem.length → R A.rem

theorem everywhere_iff {Q : Interval → Prop} {A : Arena} {live : List Interval} :
    Everywhere Q Q A live ↔ ∀ I, A.Piece live I → Q I := by
  constructor
  · rintro all I (member | ⟨c, inside, p, node, rfl⟩ | ⟨rfl, positive⟩)
    · exact all.live I member
    · exact all.nodes c inside p node
    · exact all.rem positive
  · exact fun all =>
      { live := fun I member => all I (.inl member),
        nodes := fun c inside p node => all _ (.inr (.inl ⟨c, inside, p, node, rfl⟩)),
        rem := fun positive => all _ (.inr (.inr ⟨rfl, positive⟩)) }

/-- A property of blocks and one of remainders, given the regions granted since, are kept
if a part of a remainder has both, a granted region is a remainder, and a block that
becomes the remainder is one. -/
theorem Kept.everywhere {refusals : Prop} {base : List Interval}
    {Q R : List Interval → Interval → Prop}
    (cut : ∀ {fresh I J}, Interval.Within I J → R fresh J → Q fresh I ∧ R fresh I)
    (reuse : refusals → ∀ {fresh I}, Q fresh I → R fresh I)
    (later : ∀ {fresh r I}, Q fresh I → Q (r :: fresh) I)
    (granted : ∀ {fresh r}, R (r :: fresh) r) :
    Kept refusals fun A live regions =>
      ∃ fresh, regions = fresh ++ base ∧ Everywhere (Q fresh) (R fresh) A live where
  perm := by
    rintro A live live' regions perm ⟨fresh, suffix, all⟩
    exact ⟨fresh, suffix, { all with live := fun I member => all.live I (perm.mem_iff.mpr member) }⟩
  release := by
    rintro A live regions c p small ⟨fresh, suffix, all⟩
    refine ⟨fresh, suffix, fun I member => all.live I (List.mem_cons_of_mem _ member),
      Arena.node_setList ?_ all.nodes, all.rem⟩
    exact List.forall_mem_cons.mpr ⟨all.live _ List.mem_cons_self, all.nodes c small⟩
  pop := by
    rintro A live regions c p rest small list ⟨fresh, suffix, all⟩
    have head := all.nodes c small
    rw [list, List.forall_mem_cons] at head
    exact ⟨fresh, suffix, List.forall_mem_cons.mpr ⟨head.1, all.live⟩,
      Arena.node_setList head.2 all.nodes, all.rem⟩
  setAside := by
    rintro A live regions aligned small ⟨fresh, suffix, all⟩
    refine ⟨fresh, suffix, all.live, fun i inside p node => ?_, fun positive => ?_⟩
    · rw [A.lists_setAside_eq aligned] at node
      split_ifs at node with size
      · rcases List.mem_cons.mp node with rfl | old
        · have positive : 0 < A.rem.length := size ▸ classSize_pos i
          exact size ▸ (cut (.refl _) (all.rem positive)).1
        · exact all.nodes i inside p old
      · exact all.nodes i inside p node
    · exact absurd positive (A.length_rem_setAside ▸ Nat.lt_irrefl 0)
  grow := by
    rintro A live regions c base' small none ⟨fresh, suffix, all⟩
    exact ⟨⟨base', A.wanted c⟩ :: fresh, congrArg _ suffix, fun I member => later (all.live I member),
      fun i inside p node => later (all.nodes i inside p node), fun _ => granted⟩
  reuse := by
    rintro A live regions i p rest refused inside none list ⟨fresh, suffix, all⟩
    have same : A.reuse i = { A.setList i rest with rem := ⟨p, classSize i⟩ } := by
      rw [Arena.reuse, list]
      rfl
    have head := all.nodes i inside
    rw [list, List.forall_mem_cons] at head
    rw [same]
    exact ⟨fresh, suffix, all.live, Arena.node_setList head.2 all.nodes,
      fun _ => reuse refused head.1⟩
  carve := by
    rintro A live regions c small empty room ⟨fresh, suffix, all⟩
    have whole := all.rem ((classSize_pos c).trans_le room)
    have first := A.within_carve (Arena.carved_pos room)
    rw [Nat.zero_mul] at first
    refine ⟨fresh, suffix, List.forall_mem_cons.mpr ⟨(cut first whole).1, all.live⟩,
      Arena.node_setList (fun p node => ?_) all.nodes,
      fun _ => (cut (A.rem_carve_within c) whole).2⟩
    rcases mem_progression.mp node with ⟨j, few, rfl⟩
    have within := A.within_carve (c := c) (j := j + 1) (by omega)
    rw [Nat.succ_mul, Nat.add_comm (j * _), ← Nat.add_assoc] at within
    exact (cut within whole).1

/-! ## Pieces -/

namespace World

variable {m : Machine} {es es' : List Event} {fresh : List Interval} {I J : Interval}

/-- A live block, a node of a list, or the remainder, in terms of the static members
and of memory. -/
def Piece (w : World) (lists : Nat → List Nat) (I : Interval) : Prop :=
  I ∈ w.pooled ∨ (∃ c < freeListSize, ∃ p ∈ lists c, I = ⟨p, 8 * (c + 1)⟩) ∨
    (I = w.pool.remainder ∧ w.pool.startFree < w.pool.endFree)

theorem Inv.piece_iff {w : World} {A : Arena} (inv : w.Inv A) (I : Interval) :
    w.Piece A.lists I ↔ A.Piece w.pooled I := by
  have some : w.pool.startFree < w.pool.endFree ↔ 0 < A.rem.length := by
    rw [inv.sim.start, inv.sim.stop]
    exact Nat.lt_add_right_iff_pos
  rw [Piece, some, inv.sim.remainder_eq]
  rfl

/-- `I` lies in a piece of `w`, or in a region granted since. -/
def CutFrom (w : World) (lists : Nat → List Nat) (fresh : List Interval) (I : Interval) : Prop :=
  (∃ J, w.Piece lists J ∧ I.Within J) ∨ ∃ r ∈ fresh, I.Within r

theorem CutFrom.within {w : World} {lists : Nat → List Nat} (cut : w.CutFrom lists fresh J)
    (within : I.Within J) : w.CutFrom lists fresh I :=
  cut.imp (fun ⟨K, piece, outer⟩ => ⟨K, piece, within.trans outer⟩)
    fun ⟨r, member, outer⟩ => ⟨r, member, within.trans outer⟩

theorem kept_cutFrom (w : World) (lists : Nat → List Nat) (base : List Interval) :
    Kept True fun A live regions =>
      ∃ fresh, regions = fresh ++ base ∧
        Everywhere (w.CutFrom lists fresh) (w.CutFrom lists fresh) A live := by
  apply Kept.everywhere
  · exact fun within cut => ⟨cut.within within, cut.within within⟩
  · exact fun _ _ _ cut => cut
  · exact fun cut => cut.imp_right fun ⟨r, member, within⟩ =>
      ⟨r, List.mem_cons_of_mem _ member, within⟩
  · exact .inr ⟨_, List.mem_cons_self, .refl _⟩

/-- Two pieces are never joined: whatever happens, a piece of a later state lies in a
piece of an earlier one, or in a region granted in between. -/
theorem pieces_of_run (run : Admissible step Valid (init m) (es ++ es')) :
    ∃ lists lists' fresh,
      (after step (init m) es).Accounted lists ∧
      (after step (init m) (es ++ es')).Accounted lists' ∧
      (after step (init m) (es ++ es')).pool.regions =
        fresh ++ (after step (init m) es).pool.regions ∧
      ∀ I, (after step (init m) (es ++ es')).Piece lists' I →
        (after step (init m) es).CutFrom lists fresh I := by
  rcases admissible_append.mp run with ⟨first, second⟩
  have inv := (run_refines first (inv_init m)).1
  rw [after_append]
  have kept := kept_cutFrom (after step (init m) es) (after Arena.serve Arena.init es).lists
    (after step (init m) es).pool.regions
  have start : ∀ I, (after Arena.serve Arena.init es).Piece (after step (init m) es).pooled I →
      (after step (init m) es).CutFrom (after Arena.serve Arena.init es).lists [] I :=
    fun I piece => .inl ⟨I, (inv.piece_iff I).mpr piece, .refl I⟩
  rcases kept.run_valid second inv ⟨[], rfl, everywhere_iff.mpr start⟩ with
    ⟨inv', fresh, suffix, all⟩
  exact ⟨_, _, fresh, inv.accounted, inv'.accounted, suffix,
    fun I piece => everywhere_iff.mp all I ((inv'.piece_iff I).mp piece)⟩

/-- The block carved after the refusals lies in the buffer that was given back. -/
theorem pieces_of_run_sample :
    ∃ lists lists' fresh,
      (after step (init Machine.zero) (sampleRun.take 7)).Accounted lists ∧
      (after step (init Machine.zero) (sampleRun.take 7 ++ sampleRun.drop 7)).Accounted lists' ∧
      (after step (init Machine.zero) (sampleRun.take 7 ++ sampleRun.drop 7)).pool.regions =
        fresh ++ (after step (init Machine.zero) (sampleRun.take 7)).pool.regions ∧
      ∀ I, (after step (init Machine.zero) (sampleRun.take 7 ++ sampleRun.drop 7)).Piece lists' I →
        (after step (init Machine.zero) (sampleRun.take 7)).CutFrom lists fresh I :=
  pieces_of_run (by decide +kernel)

end World

/-! ## Slots -/

/-- `I` misses `S`, if the regions do not overlap. -/
def Misses (base : List Interval) (S : Interval) (fresh : List Interval) (I : Interval) : Prop :=
  (∀ x, cover (fresh ++ base) x ≤ 1) → I.Separate S

/-- `I` is `S` or misses it, if the regions do not overlap. -/
def Matches (base : List Interval) (S : Interval) (fresh : List Interval) (I : Interval) : Prop :=
  (∀ x, cover (fresh ++ base) x ≤ 1) → I = S ∨ I.Separate S

/-- A block of the earlier regions is missed by those granted since, and never cut. -/
theorem kept_matches {base : List Interval} {S : Interval} (inside : ∀ x ∈ S, 0 < cover base x) :
    Kept False fun A live regions =>
      ∃ fresh, regions = fresh ++ base ∧
        Everywhere (Matches base S fresh) (Misses base S fresh) A live := by
  apply Kept.everywhere
  · intro fresh I J within misses
    have part : Misses base S fresh I := fun once => (misses once).mono within (.refl _)
    exact ⟨fun once => .inr (part once), part⟩
  · exact False.elim
  · exact fun matched once => matched fun x => (Nat.le_add_left _ _).trans (once x)
  · intro fresh r once x among within
    rcases cover_pos_iff.mp (inside x within) with ⟨s, old, also⟩
    have again : 0 < cover (fresh ++ base) x :=
      cover_pos_iff.mpr ⟨s, List.mem_append_right _ old, also⟩
    have twice := once x
    rw [List.cons_append, cover_cons, Interval.count_of_mem among] at twice
    omega

namespace World

variable {m : Machine} {es es' : List Event}

/-- Where nothing is refused, two blocks of the pool, at whatever times they are live,
have the same span or no byte in common. -/
theorem slots_of_run
    (run : Admissible step (fun w e => w.Valid e ∧ w.Unrefused e) (init m) (es ++ es'))
    {b b' : Block} (live : b ∈ (after step (init m) es).live) (pooled : b.Pooled)
    (live' : b' ∈ (after step (init m) (es ++ es')).live) (pooled' : b'.Pooled) :
    b'.span = b.span ∨ b'.span.Separate b.span := by
  rcases admissible_append.mp run with ⟨first, second⟩
  have inv := (run_refines (admissible_and.mp first).1 (inv_init m)).1
  have member := mem_pooled live pooled
  have inside : ∀ x ∈ b.span, 0 < cover (after step (init m) es).pool.regions x := by
    intro x within
    rw [← inv.ledger.balanced]
    exact live_within _ member x within
  have start : Everywhere (Matches (after step (init m) es).pool.regions b.span [])
      (Misses (after step (init m) es).pool.regions b.span []) (after Arena.serve Arena.init es)
      (after step (init m) es).pooled := by
    refine ⟨fun I other _ => ?_, fun c small p node _ => ?_, fun _ _ => ?_⟩
    · rcases List.mem_map.mp other with ⟨d, filtered, rfl⟩
      by_cases same : d = b
      · exact .inl (congrArg Block.span same)
      · exact .inr (span_separate inv.ledger inv.system live pooled
          (List.mem_of_mem_filter filtered) same).symm
    · exact .inr (inv.ledger.node_separate_live small node member)
    · exact inv.ledger.rem_separate_live member
  rcases (kept_matches inside).run_unrefused second inv ⟨[], rfl, start⟩ with
    ⟨inv', fresh, suffix, all⟩
  rw [after_append] at live'
  apply all.live _ (mem_pooled live' pooled')
  intro x
  rw [← suffix]
  exact inv'.ledger.granted.once x

/-- A pair taken again, against one that was live before. -/
theorem slots_of_run_sample :
    Block.span ⟨.pair, 1, 4112⟩ = Block.span ⟨.pair, 1, 4096⟩ ∨
      (Block.span ⟨.pair, 1, 4112⟩).Separate (Block.span ⟨.pair, 1, 4096⟩) := by
  have run : Admissible step (fun w e => w.Valid e ∧ w.Unrefused e) (init Machine.zero)
      (pairsRun.take 3 ++ pairsRun.drop 3) := by decide +kernel
  have before : ⟨.pair, 1, 4096⟩ ∈ (after step (init Machine.zero) (pairsRun.take 3)).live := by
    decide +kernel
  have now : ⟨.pair, 1, 4112⟩ ∈
      (after step (init Machine.zero) (pairsRun.take 3 ++ pairsRun.drop 3)).live := by
    decide +kernel
  exact slots_of_run run before (by decide) now (by decide)

end World

end TorchTest.PoolAlloc
